import Sentrik.Orchestration.Engine

/-!
# What one step of the orchestrator writes

Most steps only move control: they change where a task is, a state, a flag, a connection. `Control`
says what such a step leaves alone. `Move` is the inversion of the step function: a step is a control
step, or it is one of the few that write plan steps, decisions, agent tasks or invocations, which are
given by the function of the source that does it. Invariants about these data are proved along the
constructors of `Move`.

## Who still holds a step

Between two transactions a task holds what it has read: copies of plan steps, or the ids of steps that
were approved during the wait. `copies` and `awaited` are all that is held so; `review` are the ids
policy is going to judge.
-/

namespace Sentrik

/-- Copies of steps the task of the run is about to execute. -/
def MainPc.copies : MainPc → List PlanStep
  | .loggingIn steps => steps
  | _ => []

/-- Ids of steps approved during the wait. -/
def MainPc.awaited : MainPc → List ℕ
  | .awaiting approved _ => approved
  | _ => []

def ExecutionPc.copies : ExecutionPc → List PlanStep
  | .loggingIn steps => steps
  | _ => []

namespace Main

def copies (m : Main) : List PlanStep := m.allowed ++ m.pc.copies

/-- Ids of steps that planning has created and policy has not judged. -/
def review (m : Main) : List ℕ :=
  match m.pc with
  | .entering .policy | .inside .policy => m.plan
  | _ => []

theorem copies_subset {m m' : Main} (hallowed : m'.allowed = m.allowed)
    (hpc : m'.pc.copies ⊆ m.pc.copies) : m'.copies ⊆ m.copies := by
  intro r hr
  rw [copies, List.mem_append] at hr ⊢
  rw [hallowed] at hr
  exact hr.imp id (hpc ·)

end Main

namespace Orchestrator

def copies (o : Orchestrator) : List PlanStep :=
  o.main.elim [] Main.copies ++ o.executions.flatMap (·.pc.copies)

def awaited (o : Orchestrator) : List ℕ := o.main.elim [] (·.pc.awaited)

def review (o : Orchestrator) : List ℕ := o.main.elim [] Main.review

theorem mem_copies {o : Orchestrator} {r : PlanStep} :
    r ∈ o.copies ↔
      (∃ m, o.main = some m ∧ r ∈ m.copies) ∨ ∃ x ∈ o.executions, r ∈ x.pc.copies := by
  rw [copies, List.mem_append, List.mem_flatMap]
  cases o.main <;> simp

/-! ### Control steps -/

/-- The same step, endpoint and check. -/
def SameJob (t t' : AgentTask) : Prop :=
  t'.step = t.step ∧ t'.endpoint = t.endpoint ∧ t'.check = t.check

theorem SameJob.refl (t : AgentTask) : SameJob t t := ⟨rfl, rfl, rfl⟩

/-- Plan steps, decisions, jobs and invocations are the same, and `CANCELLED` is not written; the
counter of ids may have gone on. -/
structure SameData (o o' : Orchestrator) : Prop where
  steps : o'.steps = o.steps
  snapshot : o'.assessment.skill_snapshot = o.assessment.skill_snapshot
  requested : o'.assessment.requested_check_classes = o.assessment.requested_check_classes
  nextId : o.nextId ≤ o'.nextId
  jobs : ∀ t' ∈ o'.tasks, ∃ t ∈ o.tasks, SameJob t t'
  invocations : o'.invocations = o.invocations
  approvals : o'.approvals = o.approvals
  uncancelled : o'.assessment.state = .CANCELLED → o.assessment.state = .CANCELLED

/-- Data are the same when the fields they are read from are. -/
theorem SameData.of_eq {o o' : Orchestrator} (steps : o'.steps = o.steps := by rfl)
    (snapshot : o'.assessment.skill_snapshot = o.assessment.skill_snapshot := by rfl)
    (requested : o'.assessment.requested_check_classes = o.assessment.requested_check_classes := by
      rfl)
    (nextId : o'.nextId = o.nextId := by rfl) (tasks : o'.tasks = o.tasks := by rfl)
    (invocations : o'.invocations = o.invocations := by rfl)
    (approvals : o'.approvals = o.approvals := by rfl)
    (uncancelled : o'.assessment.state = .CANCELLED → o.assessment.state = .CANCELLED := by
      first | exact id | exact fun h ↦ by cases h) : SameData o o' where
  steps := steps
  snapshot := snapshot
  requested := requested
  nextId := nextId.ge
  jobs t ht := ⟨t, tasks ▸ ht, .refl t⟩
  invocations := invocations
  approvals := approvals
  uncancelled := uncancelled

theorem SameData.refl (o : Orchestrator) : SameData o o := .of_eq

theorem SameData.trans {o o₁ o₂ : Orchestrator} (h : SameData o o₁) (h' : SameData o₁ o₂) :
    SameData o o₂ where
  steps := h'.steps.trans h.steps
  snapshot := h'.snapshot.trans h.snapshot
  requested := h'.requested.trans h.requested
  nextId := h.nextId.trans h'.nextId
  jobs t ht := by
    obtain ⟨t₁, ht₁, hjob⟩ := h'.jobs t ht
    obtain ⟨t₂, ht₂, hjob'⟩ := h.jobs t₁ ht₁
    exact ⟨t₂, ht₂, hjob.1.trans hjob'.1, hjob.2.1.trans hjob'.2.1, hjob.2.2.trans hjob'.2.2⟩
  invocations := h'.invocations.trans h.invocations
  approvals := h'.approvals.trans h.approvals
  uncancelled := h.uncancelled ∘ h'.uncancelled

/-- A step that moves control only, and holds nothing new. -/
structure Control (o o' : Orchestrator) : Prop extends SameData o o' where
  copies : o'.copies ⊆ o.copies
  awaited : o'.awaited ⊆ o.awaited
  review : o'.review ⊆ o.review

theorem Control.refl (o : Orchestrator) : Control o o :=
  ⟨.refl o, List.Subset.refl _, List.Subset.refl _, List.Subset.refl _⟩

theorem Control.trans {o o₁ o₂ : Orchestrator} (h : Control o o₁) (h' : Control o₁ o₂) :
    Control o o₂ where
  toSameData := h.toSameData.trans h'.toSameData
  copies := List.Subset.trans h'.copies h.copies
  awaited := List.Subset.trans h'.awaited h.awaited
  review := List.Subset.trans h'.review h.review

/-- What is held is a matter of the tasks' positions. -/
theorem Control.of_same {o o' : Orchestrator} (data : SameData o o') (main : o'.main = o.main)
    (executions : o'.executions = o.executions) : Control o o' := by
  refine ⟨data, ?_, ?_, ?_⟩
  · rw [Orchestrator.copies, Orchestrator.copies, main, executions]
    exact List.Subset.refl _
  · rw [Orchestrator.awaited, Orchestrator.awaited, main]
    exact List.Subset.refl _
  · rw [Orchestrator.review, Orchestrator.review, main]
    exact List.Subset.refl _

/-- The task of the run goes to a place where it holds nothing new. -/
theorem Control.of_main {o o' : Orchestrator} {m m' : Main} (data : SameData o o')
    (main : o.main = some m) (main' : o'.main = some m') (executions : o'.executions = o.executions)
    (copies : m'.copies ⊆ m.copies) (awaited : m'.pc.awaited ⊆ m.pc.awaited)
    (review : m'.review ⊆ m.review) : Control o o' := by
  refine ⟨data, ?_, ?_, ?_⟩
  · intro r hr
    rw [mem_copies] at hr ⊢
    rw [executions, main'] at hr
    exact hr.imp (fun ⟨m₁, hm₁, hr⟩ ↦ ⟨m, main, copies (Option.some.inj hm₁ ▸ hr)⟩) id
  · rw [Orchestrator.awaited, Orchestrator.awaited, main, main']
    exact awaited
  · rw [Orchestrator.review, Orchestrator.review, main, main']
    exact review

/-- The task of the run is over. -/
theorem Control.of_idle {o o' : Orchestrator} (data : SameData o o') (main' : o'.main = none)
    (executions : o'.executions = o.executions) : Control o o' := by
  refine ⟨data, ?_, ?_, ?_⟩
  · rw [Orchestrator.copies, Orchestrator.copies, main', executions]
    exact List.subset_append_right _ _
  · rw [Orchestrator.awaited, main']
    exact List.nil_subset _
  · rw [Orchestrator.review, main']
    exact List.nil_subset _

/-- An execution goes to a place where it holds nothing new. -/
theorem Control.of_execution {o o' : Orchestrator} {j : ℕ} {x' : Execution} (data : SameData o o')
    (main : o'.main = o.main) (executions : o'.executions = o.executions.set j x')
    (copies : x'.pc.copies = []) : Control o o' := by
  refine ⟨data, fun r hr ↦ ?_, ?_, ?_⟩
  · rw [mem_copies] at hr ⊢
    rw [main, executions] at hr
    refine hr.imp id fun ⟨y, hy, hry⟩ ↦ ?_
    rcases List.mem_or_eq_of_mem_set hy with hy | rfl
    · exact ⟨y, hy, hry⟩
    · rw [copies] at hry
      cases hry
  · rw [Orchestrator.awaited, Orchestrator.awaited, main]
    exact List.Subset.refl _
  · rw [Orchestrator.review, Orchestrator.review, main]
    exact List.Subset.refl _

/-! ### Which functions are control -/

section

variable {settings : Settings} {o : Orchestrator} {m : Main}

theorem sameData_closeMain (o : Orchestrator) (m : Main) : SameData o (o.closeMain m) := by
  rw [closeMain]
  cases m.client <;> exact .of_eq

theorem closeMain_executions (o : Orchestrator) (m : Main) :
    (o.closeMain m).executions = o.executions := by
  rw [closeMain]
  cases m.client <;> rfl

/-- Going to the entrance of a phase other than policy. -/
theorem control_goto {o₁ : Orchestrator} {m' : Main} {n : Node} (data : SameData o o₁)
    (main : o.main = some m) (executions : o₁.executions = o.executions)
    (hallowed : m'.allowed = m.allowed) (hn : n ≠ .policy) :
    Control o (goto settings o₁ m' n) := by
  refine @Control.of_main o _ m { m' with pc := .entering n } ⟨data.steps, data.snapshot,
    data.requested, data.nextId, data.jobs, data.invocations, data.approvals, data.uncancelled⟩ main rfl
    executions (Main.copies_subset hallowed (List.nil_subset _)) (List.nil_subset _) ?_
  cases n with
  | policy => exact absurd rfl hn
  | _ => exact List.nil_subset _

theorem control_endPhase {o₁ : Orchestrator} {m' : Main} {n : Node} (data : SameData o o₁)
    (main : o.main = some m) (executions : o₁.executions = o.executions)
    (hallowed : m'.allowed = m.allowed) (hn : n ≠ .policy) :
    Control o (endPhase settings o₁ m' n) := by
  rw [endPhase]
  split
  · exact control_goto (data.trans (sameData_closeMain o₁ m')) main
      ((closeMain_executions o₁ m').trans executions) hallowed hn
  · exact control_goto data main executions hallowed hn

/-- Setting the place of the task of the run, to one where it holds nothing. -/
theorem control_setMain {o₁ : Orchestrator} {m' : Main} (data : SameData o o₁)
    (main : o.main = some m) (executions : o₁.executions = o.executions)
    (hallowed : m'.allowed = m.allowed) (hcopies : m'.pc.copies = []) (hawaited : m'.pc.awaited = [])
    (hreview : m'.review ⊆ m.review) : Control o (o₁.setMain m') :=
  .of_main ⟨data.steps, data.snapshot, data.requested, data.nextId, data.jobs, data.invocations,
      data.approvals, data.uncancelled⟩ main rfl executions
    (Main.copies_subset hallowed (by rw [hcopies]; exact List.nil_subset _))
    (by rw [hawaited]; exact List.nil_subset _) hreview

theorem control_start_assessment (o : Orchestrator) : Control o (start_assessment settings o) := by
  rw [start_assessment]
  split
  · exact Control.refl o
  next h =>
    have hmain : o.main = none := by simpa using h
    refine ⟨.of_eq, fun r hr ↦ ?_, List.nil_subset _, ?_⟩
    · rw [mem_copies] at hr ⊢
      refine hr.imp (fun ⟨m, hm, hr⟩ ↦ ?_) id
      rw [← Option.some.inj hm] at hr
      cases hr
    · -- the new task has no plan yet
      have hplan : ∀ n, Main.review { pc := .entering n } = [] := fun n ↦ by cases n <;> rfl
      change Main.review { pc := .entering _ } ⊆ _
      rw [hplan]
      exact List.nil_subset _

theorem control_resume_if_parked (o : Orchestrator) : Control o (_resume_if_parked settings o) := by
  rw [_resume_if_parked]
  split
  · exact Control.refl o
  split
  · exact control_start_assessment o
  · exact Control.refl o

theorem control_start_approved_steps (o : Orchestrator) (step_ids : List ℕ) :
    Control o (o.start_approved_steps step_ids) := by
  rw [start_approved_steps]
  split
  · exact Control.refl o
  · refine ⟨.of_eq, fun r hr ↦ ?_, List.Subset.refl _, List.Subset.refl _⟩
    rw [mem_copies] at hr ⊢
    refine hr.imp id fun ⟨x, hx, hr⟩ ↦ ?_
    rcases List.mem_append.1 hx with hx | hx
    · exact ⟨x, hx, hr⟩
    · rw [List.mem_singleton.1 hx] at hr
      cases hr

/-- Storing endpoints writes the endpoints and the counter. -/
theorem addEndpoints_eq (o : Orchestrator) (found : List Endpoint) :
    ∃ endpoints nextId, o.nextId ≤ nextId ∧
      (o.addEndpoints found).1 = { o with endpoints, nextId } := by
  suffices h : ∀ (found : List Endpoint) (o₁ : Orchestrator) (saved : List Endpoint),
      (∃ endpoints nextId, o.nextId ≤ nextId ∧ o₁ = { o with endpoints, nextId }) →
      ∃ endpoints nextId, o.nextId ≤ nextId ∧
        (found.foldl (fun (p : Orchestrator × List Endpoint) e ↦
          if p.1.endpoints.any (·.fingerprint == e.fingerprint) then p
          else
            let e := { e with id := p.1.nextId }
            ({ p.1 with endpoints := p.1.endpoints ++ [e], nextId := p.1.nextId + 1 }, p.2 ++ [e]))
          (o₁, saved)).1 = { o with endpoints, nextId } from
    h found o [] ⟨_, _, Nat.le_refl _, rfl⟩
  intro found
  induction found with
  | nil => exact fun o₁ saved h ↦ h
  | cons e found ih =>
    intro o₁ saved ⟨endpoints, nextId, hle, heq⟩
    rw [List.foldl_cons]
    split
    · exact ih o₁ saved ⟨endpoints, nextId, hle, heq⟩
    · subst heq
      exact ih _ _ ⟨_, _, hle.trans (Nat.le_succ _), rfl⟩

theorem sameData_addEndpoints (o : Orchestrator) (found : List Endpoint) :
    SameData o (o.addEndpoints found).1 ∧ (o.addEndpoints found).1.main = o.main ∧
      (o.addEndpoints found).1.executions = o.executions := by
  obtain ⟨endpoints, nextId, hle, heq⟩ := addEndpoints_eq o found
  rw [heq]
  exact ⟨⟨rfl, rfl, rfl, hle, fun t ht ↦ ⟨t, ht, .refl t⟩, rfl, rfl, id⟩, rfl, rfl⟩

/-- Scoring writes the coverage report. -/
theorem _phase_score_eq (registry : _Registry) (record : AuthorizationRecord) (o : Orchestrator) :
    ∃ coverage, _phase_score registry record o = { o with coverage } := by
  rw [_phase_score]
  split
  · exact ⟨o.coverage, rfl⟩
  · exact ⟨_, rfl⟩

theorem sameData_setTask {i : ℕ} {t t' : AgentTask} (ht : o.tasks[i]? = some t) (hjob : SameJob t t') :
    SameData o (o.setTask i t') where
  steps := rfl
  snapshot := rfl
  requested := rfl
  nextId := Nat.le_refl _
  jobs t₁ ht₁ := by
    rcases List.mem_or_eq_of_mem_set ht₁ with ht₁ | rfl
    · exact ⟨t₁, ht₁, .refl t₁⟩
    · exact ⟨t, List.mem_of_getElem? ht, hjob⟩
  invocations := rfl
  approvals := rfl
  uncancelled := id

theorem control_enter {record : AuthorizationRecord} {n : Node} (main : o.main = some m) (pc : m.pc = .entering n) (now : ℤ) :
    Control o (enter record settings o m n now) := by
  unfold enter
  dsimp only
  split
  · exact control_setMain (.refl o) main rfl rfl rfl rfl (List.nil_subset _)
  cases n with
  | authorize =>
    dsimp only
    split
    · exact .of_idle .of_eq rfl rfl
    · exact control_goto .of_eq main rfl rfl (by decide)
  | discover =>
    dsimp only
    split
    · exact control_setMain .of_eq main rfl rfl rfl rfl (List.nil_subset _)
    · exact control_setMain .of_eq main rfl rfl rfl rfl (List.nil_subset _)
  | plan => exact control_setMain .of_eq main rfl rfl rfl rfl (List.nil_subset _)
  | policy =>
    refine control_setMain .of_eq main rfl rfl rfl rfl ?_
    rw [Main.review, Main.review, pc]
    exact List.Subset.refl _
  | execute =>
    dsimp only
    split
    · exact control_setMain .of_eq main rfl rfl rfl rfl (List.nil_subset _)
    · exact control_setMain .of_eq main rfl rfl rfl rfl (List.nil_subset _)
  | validate =>
    dsimp only
    split
    · exact control_setMain .of_eq main rfl rfl rfl rfl (List.nil_subset _)
    · exact control_setMain .of_eq main rfl rfl rfl rfl (List.nil_subset _)
  | score => exact control_setMain .of_eq main rfl rfl rfl rfl (List.nil_subset _)
  | report => exact control_setMain .of_eq main rfl rfl rfl rfl (List.nil_subset _)

theorem control_consume {i : ℕ} {t : AgentTask} {error : Bool} (task : o.tasks[i]? = some t) :
    Control (o._persist_agent_result t error) (o.consume i t error) :=
  .of_same (sameData_setTask (o := o._persist_agent_result t error) task ⟨rfl, rfl, rfl⟩) rfl rfl

theorem resultOf_eq_some {pool i : ℕ} {t : AgentTask} {error : Bool}
    (h : o.resultOf pool i = some (t, error)) :
    o.tasks[i]? = some t ∧ t.state = .finished error := by
  rw [resultOf] at h
  split at h
  next t' ht =>
    split at h
    next error' hstate =>
      split at h
      · obtain ⟨rfl, rfl⟩ := Prod.mk.inj (Option.some.inj h)
        exact ⟨ht, hstate⟩
      · cases h
    next => cases h
  next => cases h

/-- An agent is for one of the given steps, on its endpoint, with the check the step resolves to. -/
theorem agentsFor_mem {registry : _Registry} {declaratives : List DeclarativeCheck} {client : ℕ} {steps : List PlanStep}
    {tasks : List AgentTask} (h : agentsFor registry o declaratives client steps = some tasks)
    {t : AgentTask} (ht : t ∈ tasks) :
    t.step ∈ steps ∧ t.endpoint.id = t.step.endpoint_id ∧
      _resolve_check registry t.step.check_name t.step.check_class declaratives = some t.check := by
  induction steps generalizing tasks with
  | nil =>
    obtain rfl := Option.some.inj h
    cases ht
  | cons s rest ih =>
    rw [agentsFor] at h
    split at h
    next e tasks' hendpoint hrest =>
      split at h
      next hnone =>
        obtain rfl := Option.some.inj h
        exact (ih hrest ht).imp (List.mem_cons_of_mem _) id
      next check hcheck =>
        obtain rfl := Option.some.inj h
        rcases List.mem_cons.1 ht with rfl | ht
        · have hid := List.find?_some hendpoint
          exact ⟨List.mem_cons_self, beq_iff_eq.1 hid, hcheck⟩
        · exact (ih hrest ht).imp (List.mem_cons_of_mem _) id
    next => cases h

theorem mem_numbered {rows : List PlanStep} {r : PlanStep} (h : r ∈ o.numbered rows) :
    ∃ s ∈ rows, ∃ i < rows.length, r = { s with id := o.nextId + i } := by
  obtain ⟨i, hi, rfl⟩ := List.mem_mapIdx.1 h
  exact ⟨rows[i], List.getElem_mem hi, i, hi, rfl⟩

theorem length_numbered (rows : List PlanStep) : (o.numbered rows).length = rows.length :=
  List.length_mapIdx

theorem nodup_numbered (rows : List PlanStep) : ((o.numbered rows).map (·.id)).Nodup := by
  have hids : (o.numbered rows).map (·.id) = List.range' o.nextId rows.length := by
    refine List.ext_getElem (by simp [numbered]) fun i hi hi' ↦ ?_
    simp [numbered]
  rw [hids]
  exact List.nodup_range'

end

/-! ### What leaves the run alone -/

section

variable {registry : _Registry} {record : AuthorizationRecord} {settings : Settings}
variable {o o' : Orchestrator}

/-- The task of the run, the state and the position of the graph are the same. -/
structure SameRun (o o' : Orchestrator) : Prop where
  main : o'.main = o.main
  state : o'.assessment.state = o.assessment.state
  thread : o'.thread = o.thread
  interrupted : o'.interrupted = o.interrupted

theorem SameRun.refl (o : Orchestrator) : SameRun o o := ⟨rfl, rfl, rfl, rfl⟩

theorem SameRun.trans {o o₁ o₂ : Orchestrator} (h : SameRun o o₁) (h' : SameRun o₁ o₂) :
    SameRun o o₂ where
  main := h'.main.trans h.main
  state := h'.state.trans h.state
  thread := h'.thread.trans h.thread
  interrupted := h'.interrupted.trans h.interrupted

theorem sameRun_addEndpoints (o : Orchestrator) (found : List Endpoint) :
    SameRun o (o.addEndpoints found).1 := by
  obtain ⟨endpoints, nextId, -, heq⟩ := addEndpoints_eq o found
  rw [heq]
  exact ⟨rfl, rfl, rfl, rfl⟩

theorem sameRun_phase_score (o : Orchestrator) : SameRun o (_phase_score registry record o) := by
  obtain ⟨coverage, heq⟩ := _phase_score_eq registry record o
  rw [heq]
  exact ⟨rfl, rfl, rfl, rfl⟩

/-- While the task of the run is live, nobody starts another one. -/
theorem sameRun_start_assessment (live : o.main.isSome = true) :
    SameRun o (start_assessment settings o) := by
  rw [start_assessment, if_pos live]
  exact .refl o

theorem sameRun_resume_if_parked (live : o.main.isSome = true) :
    SameRun o (_resume_if_parked settings o) := by
  rw [_resume_if_parked, if_pos (Or.inl live)]
  exact .refl o

theorem sameRun_start_approved_steps (o : Orchestrator) (step_ids : List ℕ) :
    SameRun o (o.start_approved_steps step_ids) := by
  rw [start_approved_steps]
  split <;> exact ⟨rfl, rfl, rfl, rfl⟩

theorem sameRun_taskStep {i : ℕ} {t : AgentTask} {e : TaskEvent}
    (h : taskStep settings o i t e = some o') : SameRun o o' := by
  cases e with
  | begin noticed =>
    simp only [taskStep] at h
    split at h
    · exact Option.some.inj h ▸ ⟨rfl, rfl, rfl, rfl⟩
    · cases h
  | act invoke =>
    simp only [taskStep] at h
    split at h
    · split at h
      · rw [← Option.some.inj h]
        split <;> exact ⟨rfl, rfl, rfl, rfl⟩
      · cases h
    · cases h
  | send =>
    simp only [taskStep] at h
    split at h
    · split at h
      · exact Option.some.inj h ▸ ⟨rfl, rfl, rfl, rfl⟩
      · cases h
    · cases h
  | receive =>
    simp only [taskStep] at h
    split at h
    · split at h
      · cases h
      · exact Option.some.inj h ▸ ⟨rfl, rfl, rfl, rfl⟩
    · cases h
  | finish error =>
    simp only [taskStep] at h
    split at h
    · exact Option.some.inj h ▸ ⟨rfl, rfl, rfl, rfl⟩
    · cases h

variable [u : UnicodeTables]

theorem freeze_eq (o : Orchestrator) : o.freeze = { o with assessment := o.freeze.assessment } := by
  rw [freeze]
  split <;> rfl

theorem freeze_state (o : Orchestrator) : o.freeze.assessment.state = o.assessment.state := by
  rw [freeze]
  split <;> rfl

theorem sameRun_freeze (o : Orchestrator) : SameRun o o.freeze := by
  rw [freeze]
  split <;> exact ⟨rfl, rfl, rfl, rfl⟩

/-- Neither an execution nor an agent is part of the run. -/
theorem sameRun_executionStep {j : ℕ} {x : Execution} {e : ExecutionEvent}
    (h : executionStep registry record settings o j x e = some o') : SameRun o o' := by
  cases e with
  | begin now =>
    simp only [executionStep] at h
    split at h
    · rw [← Option.some.inj h]
      unfold execute_approved_steps
      dsimp only
      split_ifs <;> exact ⟨rfl, rfl, rfl, rfl⟩
    · cases h
  | dispatch =>
    simp only [executionStep] at h
    split at h
    next steps pc =>
      obtain ⟨tasks, -, rfl⟩ := Option.map_eq_some_iff.1 h
      exact (sameRun_freeze o).trans ⟨rfl, rfl, rfl, rfl⟩
    next => cases h
  | deliver i noticed =>
    simp only [executionStep] at h
    split at h
    next pool pc =>
      obtain ⟨⟨t, error⟩, -, rfl⟩ := Option.map_eq_some_iff.1 h
      dsimp only
      split_ifs <;> exact ⟨rfl, rfl, rfl, rfl⟩
    next => cases h
  | scored =>
    simp only [executionStep] at h
    split at h
    · rw [← Option.some.inj h]
      exact (sameRun_phase_score o).trans ⟨rfl, rfl, rfl, rfl⟩
    · cases h
  | drained =>
    simp only [executionStep] at h
    split at h
    · split at h
      · exact Option.some.inj h ▸ ⟨rfl, rfl, rfl, rfl⟩
      · cases h
    · cases h
  | send | validated =>
    simp only [executionStep] at h
    split at h
    · exact Option.some.inj h ▸ ⟨rfl, rfl, rfl, rfl⟩
    · cases h
  | raise =>
    simp only [executionStep] at h
    split at h
    · cases h
    · exact Option.some.inj h ▸ ⟨rfl, rfl, rfl, rfl⟩

/-- **While the task of the run is live, only its own steps** and a restart change where the run is. -/
theorem sameRun_of_live {e : EngineEvent} (live : o.main.isSome = true)
    (hmain : ∀ e', e ≠ .main e') (hrestart : e ≠ .restart)
    (h : step registry record settings o e = some o') : SameRun o o' := by
  cases e with
  | main e => exact absurd rfl (hmain e)
  | execution j e =>
    obtain ⟨x, -, h⟩ := Option.bind_eq_some_iff.1 h
    exact sameRun_executionStep h
  | task i e =>
    obtain ⟨t, -, h⟩ := Option.bind_eq_some_iff.1 h
    exact sameRun_taskStep h
  | start reset =>
    rw [← Option.some.inj h, start]
    split
    · refine SameRun.trans ?_ (sameRun_start_assessment ?_)
      · cases reset <;> exact ⟨rfl, rfl, rfl, rfl⟩
      · cases reset <;> exact live
    · exact .refl o
  | cancel =>
    rw [← Option.some.inj h, cancel]
    dsimp only
    rw [if_pos live]
    split <;> exact ⟨rfl, rfl, rfl, rfl⟩
  | cancel_all =>
    rw [← Option.some.inj h, cancel_all]
    split <;> exact ⟨rfl, rfl, rfl, rfl⟩
  | approve step_id user_id note =>
    rw [← Option.some.inj h, approve_step]
    dsimp only
    split
    · split
      · refine SameRun.trans ?_ (sameRun_start_approved_steps _ _)
        exact ⟨rfl, rfl, rfl, rfl⟩
      · refine SameRun.trans ?_ (sameRun_resume_if_parked live)
        exact ⟨rfl, rfl, rfl, rfl⟩
    · exact .refl o
  | deny step_id user_id note =>
    rw [← Option.some.inj h, deny_step]
    dsimp only
    split
    · refine SameRun.trans ?_ (sameRun_resume_if_parked live)
      exact ⟨rfl, rfl, rfl, rfl⟩
    · exact .refl o
  | triage => exact Option.some.inj h ▸ .refl o
  | ingest found => exact Option.some.inj h ▸ sameRun_addEndpoints o found
  | register skills => exact Option.some.inj h ▸ ⟨rfl, rfl, rfl, rfl⟩
  | restart => exact absurd rfl hrestart

end

/-! ### The inversion -/

/-- Whether the step writes `CANCELLED`. -/
def cancels (o : Orchestrator) : EngineEvent → Bool
  | .main .cancelled => true
  | .cancel => o.main.isNone && !TERMINAL_STATES.contains o.assessment.state
  | _ => false

section

variable (registry : _Registry) (record : AuthorizationRecord) (settings : Settings)
variable [u : UnicodeTables]

/-- **What one step can be.** -/
inductive Move (o : Orchestrator) : EngineEvent → Orchestrator → Prop
  | control {e : EngineEvent} {o' : Orchestrator} (control : Control o o') : Move o e o'
  /-- Planning creates steps. -/
  | planned {m : Main} {multi : Bool} {strategy : String} {order : Option (List String)}
    (main : o.main = some m) (pc : m.pc = .inside .plan) :
    Move o (.main (.plan multi strategy order))
      (_phase_planning registry record settings o m multi strategy order)
  /-- Policy judges steps. -/
  | judged {m : Main} (main : o.main = some m) (pc : m.pc = .inside .policy) :
    Move o (.main .policy) (_phase_policy registry record settings o m)
  /-- The wait collects approvals. -/
  | polled {m : Main} {approved pending : List ℕ} {expired : Bool} (main : o.main = some m)
    (pc : m.pc = .awaiting approved pending) :
    Move o (.main (.poll expired)) (_await_step_approvals settings o m approved pending expired)
  /-- Execution takes up its steps. -/
  | takes {m : Main} (main : o.main = some m) (pc : m.pc = .inside .execute) :
    Move o (.main (.coordinate false)) (o.setMain { m with pc := .loggingIn (toExecute settings o m) })
  /-- Agents for the steps of the main pass. -/
  | dispatched {m : Main} {steps : List PlanStep} {tasks : List AgentTask} (main : o.main = some m)
    (pc : m.pc = .loggingIn steps)
    (agents : agentsFor registry o o._declaratives (m.client.getD 0) steps = some tasks) :
    Move o (.main .dispatch) ((o.freeze.spawn tasks).setMain
      { m with pc := .streaming o.pools [], declaratives := o._declaratives })
  /-- The result of an agent is written. -/
  | settled {e : EngineEvent} {i : ℕ} {t : AgentTask} {error : Bool} {o' : Orchestrator}
    (task : o.tasks[i]? = some t) (state : t.state = .finished error)
    (control : Control (o._persist_agent_result t error) o') : Move o e o'
  /-- Replanning creates approved steps and agents for them. -/
  | replanned {m : Main} {iteration : ℕ} {answer : ReplanAnswer} {tasks : List AgentTask}
    (main : o.main = some m) (pc : m.pc = .replanning iteration)
    (goes : ¬o.stopsReplanning record settings iteration answer)
    (order : answer.classes.Perm record.allowed_check_classes.dedup)
    (agents : agentsFor registry o m.declaratives (m.client.getD 0)
      (gapRows registry record settings o m answer.classes) = some tasks) :
    Move o (.main (.replan answer))
      (((o.addSteps (gapRows registry record settings o m answer.classes)).spawn tasks).setMain
        { m with pc := .replanStreaming iteration o.pools })
  /-- An execution of approved steps begins. -/
  | began {j : ℕ} {x : Execution} {now : ℤ} (execution : o.executions[j]? = some x) :
    Move o (.execution j (.begin now)) (execute_approved_steps record settings o j x now)
  /-- Agents for the steps of an execution. -/
  | executed {j : ℕ} {x : Execution} {steps : List PlanStep} {tasks : List AgentTask}
    (execution : o.executions[j]? = some x) (pc : x.pc = .loggingIn steps)
    (agents : agentsFor registry o o._declaratives x.client steps = some tasks) :
    Move o (.execution j .dispatch)
      ((o.freeze.spawn tasks).setExecution j { x with pc := .streaming o.pools })
  /-- An agent runs its check. -/
  | invoked {i : ℕ} {t : AgentTask} {o₁ : Orchestrator} (task : o.tasks[i]? = some t)
    (control : Control o o₁) :
    Move o (.task i (.act true))
      { o₁ with invocations := o₁.invocations ++ [⟨t.step, t.endpoint, t.check⟩] }
  | approved {step_id user_id : ℕ} {note : String} (held : o.held step_id = true)
    {o' : Orchestrator}
    (control : Control
      { o.decideStep step_id .approved fun d ↦
          { d with approved_by := some user_id, approval_note := some note } with
        approvals := o.approvals ++ [step_id] } o') :
    Move o (.approve step_id user_id note) o'
  | denied {step_id user_id : ℕ} {note : String} (held : o.held step_id = true)
    {o' : Orchestrator}
    (control : Control
      (o.decideStep step_id .denied fun d ↦
        { d with denied_by := some user_id, denial_note := some note }) o') :
    Move o (.deny step_id user_id note) o'
  | cancelled {e : EngineEvent} {o' : Orchestrator} (cancels : o.cancels e = true)
    (control : Control (o.setState .CANCELLED) o') : Move o e o'
  /-- The process dies, and the startup sweep clears the steps. -/
  | cleared {o' : Orchestrator} (control : Control { o with steps := [] } o') : Move o .restart o'

end

variable {registry : _Registry} {record : AuthorizationRecord} {settings : Settings}
variable [u : UnicodeTables] {o o' : Orchestrator} {m : Main}

/-- **The inversion of a step of the run.** -/
theorem move_of_mainStep {e : MainEvent} (main : o.main = some m)
    (h : mainStep registry record settings o m e = some o') :
    Move registry record settings o (.main e) o' := by
  have hnil {l : List ℕ} : [] ⊆ l := List.nil_subset l
  cases e with
  | enter now =>
    simp only [mainStep] at h
    split at h
    next n pc => exact Option.some.inj h ▸ .control (control_enter main pc now)
    next => cases h
  | discovered found =>
    simp only [mainStep] at h
    split at h
    next pc =>
      rw [← Option.some.inj h]
      obtain ⟨data, hmain, hexec⟩ := sameData_addEndpoints o found
      exact .control (control_endPhase data main hexec rfl (by decide))
    next => cases h
  | plan multi strategy order =>
    simp only [mainStep] at h
    split at h
    next pc => exact Option.some.inj h ▸ .planned main pc
    next => cases h
  | policy =>
    simp only [mainStep] at h
    split at h
    next pc => exact Option.some.inj h ▸ .judged main pc
    next => cases h
  | poll expired =>
    simp only [mainStep] at h
    split at h
    next approved pending pc => exact Option.some.inj h ▸ .polled main pc
    next => cases h
  | coordinate elects_stop =>
    simp only [mainStep] at h
    split at h
    next pc =>
      rw [← Option.some.inj h]
      unfold coordinate
      dsimp only
      split
      · exact .control (control_endPhase (.refl o) main rfl rfl (by decide))
      next hgo =>
        obtain rfl : elects_stop = false := by simpa using fun hs ↦ hgo (Or.inr hs)
        exact .takes main pc
    next => cases h
  | send =>
    simp only [mainStep] at h
    split at h
    · exact Option.some.inj h ▸ .control (.of_same .of_eq rfl rfl)
    · cases h
  | dispatch =>
    simp only [mainStep] at h
    split at h
    next steps pc =>
      obtain ⟨tasks, agents, rfl⟩ := Option.map_eq_some_iff.1 h
      exact .dispatched main pc agents
    next => cases h
  | deliver i noticed =>
    simp only [mainStep] at h
    split at h
    next pool errored pc =>
      obtain ⟨⟨t, error⟩, result, rfl⟩ := Option.map_eq_some_iff.1 h
      obtain ⟨task, state⟩ := resultOf_eq_some result
      dsimp only
      split
      · refine .control (control_endPhase ?_ main ?_ rfl (by decide))
        · cases m.client <;> exact .of_eq
        · cases m.client <;> rfl
      · refine .settled task state ((control_consume task).trans ?_)
        exact control_setMain .of_eq main rfl rfl rfl rfl hnil
    next iteration pool pc =>
      obtain ⟨⟨t, error⟩, result, rfl⟩ := Option.map_eq_some_iff.1 h
      obtain ⟨task, state⟩ := resultOf_eq_some result
      dsimp only
      split
      · exact .control (control_setMain .of_eq main rfl rfl rfl rfl hnil)
      · exact .settled task state (control_consume task)
    next => cases h
  | drained =>
    simp only [mainStep] at h
    split at h
    · split at h
      · exact Option.some.inj h ▸ .control (control_setMain .of_eq main rfl rfl rfl rfl hnil)
      · cases h
    · split at h
      · exact Option.some.inj h ▸ .control (control_setMain .of_eq main rfl rfl rfl rfl hnil)
      · cases h
    · cases h
  | retry noticed =>
    simp only [mainStep] at h
    split at h
    next attempt queue errored pc =>
      unfold retry at h
      split at h
      next i rest =>
        obtain ⟨t, task, rfl⟩ := Option.map_eq_some_iff.1 h
        exact .control (control_setMain (sameData_setTask task ⟨rfl, rfl, rfl⟩) main rfl rfl rfl rfl
          hnil)
      · split at h
        · exact Option.some.inj h ▸ .control (control_setMain .of_eq main rfl rfl rfl rfl hnil)
        · exact Option.some.inj h ▸ .control (control_setMain .of_eq main rfl rfl rfl rfl hnil)
    next => cases h
  | retried =>
    simp only [mainStep] at h
    split at h
    next attempt i queue errored pc =>
      rw [retried] at h
      split at h
      next t task =>
        split at h
        next error state =>
          rw [← Option.some.inj h]
          exact .settled task state (control_setMain .of_eq main rfl rfl rfl rfl hnil)
        next => cases h
      next => cases h
    next => cases h
  | replan answer =>
    simp only [mainStep] at h
    split at h
    next iteration pc =>
      rw [_maybe_replan] at h
      split at h
      · cases h
      next order =>
        split at h
        · exact Option.some.inj h ▸ .control (control_endPhase (.refl o) main rfl rfl (by decide))
        next hgo =>
          obtain ⟨tasks, agents, rfl⟩ := Option.map_eq_some_iff.1 h
          exact .replanned main pc (fun hstops ↦ hgo (Or.inl hstops))
            (List.isPerm_iff.1 (by simpa using order)) agents
    next => cases h
  | validated =>
    simp only [mainStep] at h
    split at h
    · exact Option.some.inj h ▸ .control (control_endPhase (.refl o) main rfl rfl (by decide))
    · cases h
  | scored =>
    simp only [mainStep] at h
    split at h
    · rw [← Option.some.inj h]
      obtain ⟨coverage, heq⟩ := _phase_score_eq registry record o
      rw [heq]
      exact .control (control_goto .of_eq main rfl rfl (by decide))
    · cases h
  | reported =>
    simp only [mainStep] at h
    split at h
    · refine Option.some.inj h ▸ .control (.of_main .of_eq main rfl rfl
        (Main.copies_subset rfl (List.nil_subset _)) hnil hnil)
    · cases h
  | raise error =>
    simp only [mainStep] at h
    split at h
    · cases h
    · rw [← Option.some.inj h]
      rw [raise]
      split
      · refine .control (.of_idle ((sameData_closeMain o m).trans .of_eq) rfl ?_)
        exact closeMain_executions o m
      · exact .control (control_setMain .of_eq main rfl rfl rfl rfl hnil)
  | cancelled =>
    simp only [mainStep] at h
    split at h
    · rw [← Option.some.inj h]
      exact .cancelled rfl (.of_main .of_eq main rfl rfl (Main.copies_subset rfl (List.nil_subset _))
        hnil hnil)
    · cases h
  | leave =>
    simp only [mainStep] at h
    split at h
    · rw [← Option.some.inj h]
      exact .control (.of_idle ((sameData_closeMain o m).trans .of_eq) rfl (closeMain_executions o m))
    · cases h

/-- **The inversion of a step of an execution.** -/
theorem move_of_executionStep {j : ℕ} {x : Execution} {e : ExecutionEvent}
    (execution : o.executions[j]? = some x)
    (h : executionStep registry record settings o j x e = some o') :
    Move registry record settings o (.execution j e) o' := by
  cases e with
  | begin now =>
    simp only [executionStep] at h
    split at h
    · exact Option.some.inj h ▸ .began execution
    · cases h
  | send =>
    simp only [executionStep] at h
    split at h
    · exact Option.some.inj h ▸ .control (.of_same .of_eq rfl rfl)
    · cases h
  | dispatch =>
    simp only [executionStep] at h
    split at h
    next steps pc =>
      obtain ⟨tasks, agents, rfl⟩ := Option.map_eq_some_iff.1 h
      exact .executed execution pc agents
    next => cases h
  | deliver i noticed =>
    simp only [executionStep] at h
    split at h
    next pool pc =>
      obtain ⟨⟨t, error⟩, result, rfl⟩ := Option.map_eq_some_iff.1 h
      obtain ⟨task, state⟩ := resultOf_eq_some result
      dsimp only
      split
      · exact .control (.of_execution .of_eq rfl rfl rfl)
      · exact .settled task state (control_consume task)
    next => cases h
  | drained =>
    simp only [executionStep] at h
    split at h
    next pool pc =>
      split at h
      · exact Option.some.inj h ▸ .control (.of_execution .of_eq rfl rfl rfl)
      · cases h
    next => cases h
  | validated =>
    simp only [executionStep] at h
    split at h
    · exact Option.some.inj h ▸ .control (.of_execution .of_eq rfl rfl rfl)
    · cases h
  | scored =>
    simp only [executionStep] at h
    split at h
    · rw [← Option.some.inj h]
      obtain ⟨coverage, heq⟩ := _phase_score_eq registry record o
      rw [heq]
      exact .control (.of_execution .of_eq rfl rfl rfl)
    · cases h
  | raise =>
    simp only [executionStep] at h
    split at h
    · cases h
    · exact Option.some.inj h ▸ .control (.of_execution .of_eq rfl rfl rfl)

/-- **The inversion of a step of an agent task.** -/
theorem move_of_taskStep {i : ℕ} {t : AgentTask} {e : TaskEvent} (task : o.tasks[i]? = some t)
    (h : taskStep settings o i t e = some o') :
    Move registry record settings o (.task i e) o' := by
  have hset : ∀ state inFlight, Control o (o.setTask i { t with state, inFlight }) := fun _ _ ↦
    .of_same (sameData_setTask task ⟨rfl, rfl, rfl⟩) rfl rfl
  cases e with
  | begin noticed =>
    simp only [taskStep] at h
    split at h
    · exact Option.some.inj h ▸ .control (hset _ _)
    · cases h
  | act invoke =>
    simp only [taskStep] at h
    split at h
    next passes _ state =>
      split at h
      next =>
        rw [← Option.some.inj h]
        cases invoke with
        | true => exact .invoked task (hset _ _)
        | false => exact .control (hset _ _)
      next => cases h
    next => cases h
  | send =>
    simp only [taskStep] at h
    split at h
    · split at h
      · exact Option.some.inj h ▸ .control ((hset _ _).trans (.of_same .of_eq rfl rfl))
      · cases h
    · cases h
  | receive =>
    simp only [taskStep] at h
    split at h
    · split at h
      · cases h
      · exact Option.some.inj h ▸ .control ((hset _ _).trans (.of_same .of_eq rfl rfl))
    · cases h
  | finish error =>
    simp only [taskStep] at h
    split at h
    · exact Option.some.inj h ▸ .control (hset _ _)
    · cases h

/-- What a restart leaves of what the tasks held, and of the steps. -/
theorem move_restart (o : Orchestrator) :
    Move registry record settings o .restart (resume_incomplete_assessments settings o.crash) := by
  have hcrash : Control o o.crash := by
    refine ⟨⟨rfl, rfl, rfl, Nat.le_refl _, fun t' ht' ↦ ?_, rfl, rfl, id⟩, List.nil_subset _,
      List.nil_subset _, List.nil_subset _⟩
    obtain ⟨t, ht, rfl⟩ := List.mem_map.1 ht'
    exact ⟨t, ht, rfl, rfl, rfl⟩
  rw [resume_incomplete_assessments]
  split
  · exact .control hcrash
  split
  · exact .control (hcrash.trans (control_start_assessment _))
  · refine .cleared (Control.trans ?_ (control_start_assessment _))
    exact ⟨⟨rfl, rfl, rfl, Nat.le_refl _, hcrash.jobs, rfl, rfl, fun h ↦ by cases h⟩, List.nil_subset _,
      List.nil_subset _, List.nil_subset _⟩

/-- **The inversion.** -/
theorem move_of_step {e : EngineEvent} (h : step registry record settings o e = some o') :
    Move registry record settings o e o' := by
  cases e with
  | main e =>
    obtain ⟨m, main, h⟩ := Option.bind_eq_some_iff.1 h
    exact move_of_mainStep main h
  | execution j e =>
    obtain ⟨x, execution, h⟩ := Option.bind_eq_some_iff.1 h
    exact move_of_executionStep execution h
  | task i e =>
    obtain ⟨t, task, h⟩ := Option.bind_eq_some_iff.1 h
    exact move_of_taskStep task h
  | start reset =>
    rw [← Option.some.inj h]
    rw [start]
    split
    · refine .control (Control.trans ?_ (control_start_assessment _))
      cases reset <;> exact .of_same .of_eq rfl rfl
    · exact .control (.refl o)
  | cancel =>
    rw [← Option.some.inj h]
    rw [cancel]
    dsimp only
    split
    · exact .control (.refl o)
    next hstate =>
      split
      · exact .control (.of_same .of_eq rfl rfl)
      next hmain =>
        refine .cancelled ?_ (.of_same .of_eq rfl rfl)
        simpa [cancels, hstate] using hmain
  | cancel_all =>
    rw [← Option.some.inj h]
    rw [cancel_all]
    split
    · exact .control (.refl o)
    · exact .control (.of_same .of_eq rfl rfl)
  | approve step_id user_id note =>
    rw [← Option.some.inj h]
    rw [approve_step]
    split
    next held =>
      dsimp only
      split
      · exact .approved held (control_start_approved_steps _ _)
      · exact .approved held (control_resume_if_parked _)
    next => exact .control (.refl o)
  | deny step_id user_id note =>
    rw [← Option.some.inj h]
    rw [deny_step]
    split
    next held =>
      refine .denied held (Control.trans ?_ (control_resume_if_parked _))
      exact .of_same .of_eq rfl rfl
    next => exact .control (.refl o)
  | triage => exact Option.some.inj h ▸ .control (.refl o)
  | ingest found =>
    rw [← Option.some.inj h]
    obtain ⟨data, hmain, hexec⟩ := sameData_addEndpoints o found
    exact .control (.of_same data hmain hexec)
  | register skills => exact Option.some.inj h ▸ .control (.of_same .of_eq rfl rfl)
  | restart => exact Option.some.inj h ▸ move_restart o

end Orchestrator

end Sentrik
