import Sentrik.Orchestration.Dossier
import Sentrik.Orchestration.StepOrigins

/-!
# Who may still write the result of a step

A step that is on its way to a result is in one of these places: among the copies that the run, or an
execution of approved steps, is about to give to agents; in the list of an execution that has not begun;
with an agent whose result nobody has consumed; with an agent that is to be retried. `claims` counts them.

`flow_of_step` is the inversion of the step function on these counts. A step of the machine takes up steps
(`taken`), and it completes some (`completions`); beyond that it only gives up claims.
-/

namespace Sentrik

/-- The agents that failed and may be retried. -/
def MainPc.retries : MainPc → List ℕ
  | .streaming _ errored => errored
  | .retrying _ running queue errored => running.toList ++ queue ++ errored
  | _ => []

/-- The steps an execution has, or will read. -/
def Execution.pending (x : Execution) : List ℕ :=
  match x.pc with
  | .queued => x.step_ids
  | .loggingIn steps => steps.map (·.id)
  | _ => []

/-- Whether nobody has consumed the result of the agent of a step. -/
def AgentTask.claims (id : ℕ) (t : AgentTask) : ℕ := if t.delivered = false ∧ t.step.id = id then 1 else 0

/-- How many of these agents are for a step. -/
def claimedBy (tasks : List AgentTask) (is : List ℕ) (id : ℕ) : ℕ :=
  is.countP fun i ↦ tasks[i]?.any (·.step.id == id)

/-! ### Counting -/

theorem sum_map_set {α : Type} {f : α → ℕ} {l : List α} {i : ℕ} {a b : α} (h : l[i]? = some a) :
    ((l.set i b).map f).sum + f a = (l.map f).sum + f b := by
  induction l generalizing i with
  | nil => cases h
  | cons c l ih =>
    cases i with
    | zero =>
      obtain rfl := Option.some.inj h
      rw [List.set_cons_zero, List.map_cons, List.map_cons, List.sum_cons, List.sum_cons]
      omega
    | succ i =>
      have hrest := ih (i := i) h
      rw [List.set_cons_succ, List.map_cons, List.map_cons, List.sum_cons, List.sum_cons]
      omega

/-- A task that is for the same step. -/
theorem claimedBy_set {tasks : List AgentTask} {i : ℕ} {t t' : AgentTask} (task : tasks[i]? = some t)
    (step : t'.step = t.step) (is : List ℕ) (id : ℕ) :
    claimedBy (tasks.set i t') is id = claimedBy tasks is id := by
  refine List.countP_congr fun j _ ↦ ?_
  by_cases hij : i = j
  · subst hij
    obtain ⟨hi, -⟩ := List.getElem?_eq_some_iff.1 task
    rw [List.getElem?_set_self hi, task, Option.any_some, Option.any_some, step]
  · rw [List.getElem?_set_ne hij]

/-- New tasks are not among those that are named. -/
theorem claimedBy_append {tasks : List AgentTask} {is : List ℕ} (range : ∀ i ∈ is, i < tasks.length)
    (tasks' : List AgentTask) (id : ℕ) : claimedBy (tasks ++ tasks') is id = claimedBy tasks is id :=
  List.countP_congr fun i hi ↦ by rw [List.getElem?_append_left (range i hi)]

theorem claimedBy_nil (tasks : List AgentTask) (id : ℕ) : claimedBy tasks [] id = 0 := rfl

theorem claimedBy_singleton {tasks : List AgentTask} {i : ℕ} {t : AgentTask} (task : tasks[i]? = some t)
    (id : ℕ) : claimedBy tasks [i] id = [t.step.id].count id := by
  rw [claimedBy, List.countP_singleton, List.count_singleton, task, Option.any_some]

theorem claimedBy_append_right (tasks : List AgentTask) (is js : List ℕ) (id : ℕ) :
    claimedBy tasks (is ++ js) id = claimedBy tasks is id + claimedBy tasks js id :=
  List.countP_append

namespace Orchestrator

/-- The agents the run may retry. -/
def retries (o : Orchestrator) : List ℕ := o.main.elim [] (·.pc.retries)

/-- The steps the run is about to give to agents. -/
def loggedIn (o : Orchestrator) : List ℕ := o.main.elim [] fun m ↦ m.pc.copies.map (·.id)

/-- **In how many places a step is** on its way to a result. -/
def claims (o : Orchestrator) (id : ℕ) : ℕ :=
  o.loggedIn.count id + claimedBy o.tasks o.retries id +
    (o.executions.map fun x ↦ x.pending.count id).sum + (o.tasks.map (·.claims id)).sum

/-- The agents that may be retried exist. -/
def InRange (o : Orchestrator) : Prop := ∀ i ∈ o.retries, i < o.tasks.length

/-- What a step takes up and completes, and what it does to the claims. -/
structure Flow (o : Orchestrator) (taken completed : List ℕ) (o' : Orchestrator) : Prop where
  claims : ∀ id, o'.claims id + completed.count id ≤ o.claims id + taken.count id
  range : o'.InRange

section

variable {settings : Settings} {o o' : Orchestrator} {m m' : Main}

/-- The claims are a matter of where the tasks are. -/
theorem Flow.of_eq (range : o.InRange) (loggedIn : o'.loggedIn = o.loggedIn := by rfl)
    (retries : o'.retries = o.retries := by rfl) (executions : o'.executions = o.executions := by rfl)
    (tasks : o'.tasks = o.tasks := by rfl) : Flow o [] [] o' := by
  refine ⟨fun id ↦ Nat.le_of_eq ?_, fun i hi ↦ ?_⟩
  · rw [Orchestrator.claims, Orchestrator.claims, loggedIn, retries, executions, tasks]
  · rw [tasks]
    exact range i (retries ▸ hi)

/-- The run is at a place where it has nothing to write. -/
theorem Flow.of_main (copies : o'.loggedIn = []) (retries : o'.retries = [])
    (executions : o'.executions = o.executions := by rfl) (tasks : o'.tasks = o.tasks := by rfl) :
    Flow o [] [] o' := by
  refine ⟨fun id ↦ ?_, fun i hi ↦ ?_⟩
  · rw [Orchestrator.claims, Orchestrator.claims, copies, retries, executions, tasks, claimedBy_nil]
    simp only [List.count_nil]
    omega
  · rw [retries] at hi
    cases hi

/-- A task changes, and not what it is for. -/
theorem Flow.of_task (range : o.InRange) {i : ℕ} {t t' : AgentTask} (task : o.tasks[i]? = some t)
    (tasks : o'.tasks = o.tasks.set i t') (step : t'.step = t.step)
    (delivered : t'.delivered = t.delivered) (loggedIn : o'.loggedIn = o.loggedIn := by rfl)
    (retries : o'.retries = o.retries := by rfl) (executions : o'.executions = o.executions := by rfl) :
    Flow o [] [] o' := by
  refine ⟨fun id ↦ ?_, fun j hj ↦ ?_⟩
  · have hsum := @sum_map_set _ (·.claims id) _ _ _ t' task
    have hsame : t'.claims id = t.claims id := by rw [AgentTask.claims, AgentTask.claims, step, delivered]
    rw [Orchestrator.claims, Orchestrator.claims, loggedIn, retries, executions, tasks,
      claimedBy_set task step]
    omega
  · rw [tasks, List.length_set]
    exact range j (retries ▸ hj)

/-- An execution goes to a place where it has at most what it had. -/
theorem Flow.of_execution (range : o.InRange) {j : ℕ} {x x' : Execution}
    (execution : o.executions[j]? = some x) (executions : o'.executions = o.executions.set j x')
    (pending : ∀ id, x'.pending.count id ≤ x.pending.count id) (main : o'.main = o.main := by rfl)
    (tasks : o'.tasks = o.tasks := by rfl) : Flow o [] [] o' := by
  have hretries : o'.retries = o.retries := by rw [retries, retries, main]
  refine ⟨fun id ↦ ?_, fun i hi ↦ ?_⟩
  · have hsum := @sum_map_set _ (fun x : Execution ↦ x.pending.count id) _ _ _ x' execution
    have hle := pending id
    rw [Orchestrator.claims, Orchestrator.claims, loggedIn, loggedIn, hretries, main, executions, tasks]
    omega
  · rw [tasks]
    exact range i (hretries ▸ hi)

/-- The claims before are a matter of where the tasks are. -/
theorem Flow.before {o₁ : Orchestrator} {taken completed : List ℕ} (h : Flow o₁ taken completed o')
    (main : o₁.main = o.main := by rfl) (executions : o₁.executions = o.executions := by rfl)
    (tasks : o₁.tasks = o.tasks := by rfl) : Flow o taken completed o' := by
  refine ⟨fun id ↦ ?_, h.range⟩
  have hsame : o₁.claims id = o.claims id := by
    rw [Orchestrator.claims, Orchestrator.claims, loggedIn, loggedIn, retries, retries, main, executions,
      tasks]
  exact hsame ▸ h.claims id

/-! ### Control -/

theorem closeMain_tasks (o : Orchestrator) (m : Main) : (o.closeMain m).tasks = o.tasks := by
  rw [closeMain]
  cases m.client <;> rfl

theorem flow_endPhase {o₁ : Orchestrator} (m : Main) (n : Node)
    (executions : o₁.executions = o.executions := by rfl) (tasks : o₁.tasks = o.tasks := by rfl) :
    Flow o [] [] (endPhase settings o₁ m n) := by
  rw [endPhase]
  split
  · exact .of_main rfl rfl ((closeMain_executions o₁ m).trans executions)
      ((closeMain_tasks o₁ m).trans tasks)
  · exact .of_main rfl rfl executions tasks

theorem flow_start_assessment (range : o.InRange) : Flow o [] [] (start_assessment settings o) := by
  rw [start_assessment]
  split
  · exact .of_eq range
  · exact .of_main rfl rfl

theorem flow_resume_if_parked (range : o.InRange) : Flow o [] [] (_resume_if_parked settings o) := by
  rw [_resume_if_parked]
  split
  · exact .of_eq range
  split
  · exact flow_start_assessment range
  · exact .of_eq range

/-- An execution that is launched has a claim on its steps. -/
theorem flow_start_approved_steps (range : o.InRange) (step_ids : List ℕ) :
    Flow o step_ids [] (o.start_approved_steps step_ids) := by
  rw [start_approved_steps]
  split
  · exact ⟨fun id ↦ by rw [List.count_nil]; omega, range⟩
  · refine ⟨fun id ↦ ?_, range⟩
    have hpending : (Execution.mk step_ids .queued 0).pending.count id = step_ids.count id := rfl
    rw [Orchestrator.claims, Orchestrator.claims, List.map_append, List.sum_append, List.map_singleton,
      List.sum_singleton, hpending, List.count_nil]
    show o.loggedIn.count id + claimedBy o.tasks o.retries id + (_ + step_ids.count id) +
      (o.tasks.map (·.claims id)).sum + 0 ≤ _
    omega

theorem flow_enter {record : AuthorizationRecord} (n : Node) (now : ℤ) :
    Flow o [] [] (enter record settings o m n now) := by
  unfold enter
  dsimp only
  split
  · exact .of_main rfl rfl
  cases n with
  | authorize | discover | execute | validate =>
    dsimp only
    split <;> exact .of_main rfl rfl
  | plan | policy | score | report => exact .of_main rfl rfl

/-- The agents of copies. -/
theorem claims_agentsFor {registry : _Registry} {declaratives : List DeclarativeCheck} {client : ℕ}
    {steps : List PlanStep} {tasks : List AgentTask}
    (agents : agentsFor registry o declaratives client steps = some tasks) (id : ℕ) :
    (tasks.map (·.claims id)).sum ≤ (steps.map (·.id)).count id := by
  induction steps generalizing tasks with
  | nil =>
    obtain rfl := Option.some.inj agents
    exact Nat.le_refl _
  | cons s rest ih =>
    rw [agentsFor] at agents
    rw [List.map_cons, List.count_cons]
    split at agents
    next e tasks' hendpoint hrest =>
      have hle := ih hrest
      split at agents
      next hnone =>
        obtain rfl := Option.some.inj agents
        omega
      next check hcheck =>
        obtain rfl := Option.some.inj agents
        rw [List.map_cons, List.sum_cons, AgentTask.claims]
        by_cases hid : s.id = id
        · rw [if_pos ⟨rfl, hid⟩, if_pos (beq_iff_eq.2 hid)]
          omega
        · rw [if_neg fun h ↦ hid h.2, if_neg fun h ↦ hid (beq_iff_eq.1 h)]
          omega
    next => cases agents

/-- A result that is consumed is claimed no more. -/
theorem claims_consumed {i : ℕ} {t : AgentTask} (task : o.tasks[i]? = some t)
    (undelivered : t.delivered = false) (id : ℕ) :
    ((o.tasks.set i { t with delivered := true }).map (·.claims id)).sum + [t.step.id].count id =
      (o.tasks.map (·.claims id)).sum := by
  have hsum := @sum_map_set _ (·.claims id) _ _ _ { t with delivered := true } task
  have hnew : AgentTask.claims id { t with delivered := true } = 0 := if_neg fun h ↦ by cases h.1
  have hold : t.claims id = [t.step.id].count id := by
    rw [AgentTask.claims, List.count_singleton]
    by_cases hid : t.step.id = id
    · rw [if_pos ⟨undelivered, hid⟩, if_pos (beq_iff_eq.2 hid)]
    · rw [if_neg fun h ↦ hid h.2, if_neg fun h ↦ hid (beq_iff_eq.1 h)]
  rw [hnew, hold] at hsum
  exact hsum

theorem resultOf_undelivered {pool i : ℕ} {t : AgentTask} {error : Bool}
    (h : o.resultOf pool i = some (t, error)) : t.delivered = false := by
  rw [resultOf] at h
  split at h
  next t' ht =>
    split at h
    · split at h
      next hcond =>
        obtain ⟨rfl, -⟩ := Prod.mk.inj (Option.some.inj h)
        exact hcond.2
      next => cases h
    · cases h
  next => cases h

end

/-! ### Taking up and completing -/

section

/-- The steps whose check has run to its end, and whose result is written by a step of the machine. -/
def completions (o : Orchestrator) (e : EngineEvent) : List ℕ :=
  (o.delivered e).toList.filterMap fun t ↦ if t.state = .finished false then some t.step.id else none

variable {o o' : Orchestrator} {m : Main}

/-- Claims that are given up may as well have been taken up. -/
theorem Flow.widen {completed : List ℕ} (h : Flow o [] completed o') (taken : List ℕ) :
    Flow o taken completed o' := by
  refine ⟨fun id ↦ ?_, h.range⟩
  have hle := h.claims id
  rw [List.count_nil] at hle
  omega

theorem completions_of_delivered {e : EngineEvent} {t : AgentTask} {error : Bool}
    (delivered : o.delivered e = some t) (state : t.state = .finished error) :
    o.completions e = if error then [] else [t.step.id] := by
  rw [completions, delivered, Option.toList_some, List.filterMap_cons, state, List.filterMap_nil]
  cases error <;> rfl

theorem completions_of_none {e : EngineEvent} (delivered : o.delivered e = none) :
    o.completions e = [] := by
  rw [completions, delivered]
  rfl

/-- The main pass consumes a result. -/
theorem flow_consume_main (range : o.InRange) (main : o.main = some m) {pool i : ℕ} {errored : List ℕ}
    {t : AgentTask} {error : Bool} (pc : m.pc = .streaming pool errored)
    (result : o.resultOf pool i = some (t, error)) :
    Flow o [] (if error then [] else [t.step.id]) ((o.consume i t error).setMain
      { m with pc := .streaming pool (if error then errored ++ [i] else errored) }) := by
  obtain ⟨task, -⟩ := resultOf_eq_some result
  have hretries : o.retries = errored := by rw [retries, main, Option.elim, pc, MainPc.retries]
  have hrange : ∀ j ∈ errored, j < o.tasks.length := fun j hj ↦ range j (hretries ▸ hj)
  obtain ⟨hi, -⟩ := List.getElem?_eq_some_iff.1 task
  refine ⟨fun id ↦ ?_, ?_⟩
  · have hsum := claims_consumed task (resultOf_undelivered result) id
    have hset := claimedBy_set task (show AgentTask.step { t with delivered := true } = t.step from rfl)
    have hone : claimedBy (o.tasks.set i { t with delivered := true }) [i] id = [t.step.id].count id := by
      rw [hset, claimedBy_singleton task]
    have hold : claimedBy o.tasks o.retries id =
        claimedBy (o.tasks.set i { t with delivered := true }) errored id := by rw [hretries, hset]
    rw [Orchestrator.claims, Orchestrator.claims, hold]
    show 0 + claimedBy (o.tasks.set i { t with delivered := true })
      (if error then errored ++ [i] else errored) id + (o.executions.map fun x ↦ x.pending.count id).sum +
        ((o.tasks.set i { t with delivered := true }).map (·.claims id)).sum +
          (if error then [] else [t.step.id]).count id ≤ _
    cases error with
    | true =>
      rw [if_pos rfl, if_pos rfl, claimedBy_append_right, hone, List.count_nil]
      omega
    | false =>
      rw [if_neg Bool.false_ne_true, if_neg Bool.false_ne_true, List.count_nil]
      omega
  · intro j hj
    have hj' : j ∈ (if error then errored ++ [i] else errored) := hj
    show j < (o.tasks.set i { t with delivered := true }).length
    rw [List.length_set]
    cases error with
    | true =>
      rcases List.mem_append.1 hj' with hj' | hj'
      · exact hrange j hj'
      · rw [List.mem_singleton.1 hj']
        exact hi
    | false => exact hrange j hj'

/-- Replanning, or an execution, consumes a result. -/
theorem flow_consume (range : o.InRange) {pool i : ℕ} {t : AgentTask} {error : Bool}
    (result : o.resultOf pool i = some (t, error)) :
    Flow o [] (if error then [] else [t.step.id]) (o.consume i t error) := by
  obtain ⟨task, -⟩ := resultOf_eq_some result
  refine ⟨fun id ↦ ?_, fun j hj ↦ ?_⟩
  · have hsum := claims_consumed task (resultOf_undelivered result) id
    have hset := claimedBy_set task (show AgentTask.step { t with delivered := true } = t.step from rfl) o.retries id
    have hle : (if error then [] else [t.step.id]).count id ≤ [t.step.id].count id := by
      cases error with
      | true => exact Nat.zero_le _
      | false => exact Nat.le_refl _
    rw [Orchestrator.claims, Orchestrator.claims, ← hset]
    show o.loggedIn.count id + claimedBy (o.tasks.set i { t with delivered := true }) o.retries id +
      (o.executions.map fun x ↦ x.pending.count id).sum +
        ((o.tasks.set i { t with delivered := true }).map (·.claims id)).sum + _ ≤ _
    omega
  · show j < (o.tasks.set i { t with delivered := true }).length
    rw [List.length_set]
    exact range j hj

/-- The result of a retried agent. -/
theorem flow_retried (range : o.InRange) (main : o.main = some m) {attempt i : ℕ}
    {queue errored : List ℕ} {t : AgentTask} {error : Bool}
    (pc : m.pc = .retrying attempt (some i) queue errored) (task : o.tasks[i]? = some t) :
    Flow o [] (if error then [] else [t.step.id]) ((o._persist_agent_result t error).setMain
      { m with pc := .retrying attempt none queue (if error then errored ++ [i] else errored) }) := by
  have hretries : o.retries = [i] ++ (queue ++ errored) := by
    rw [retries, main, Option.elim, pc, MainPc.retries, Option.toList_some, List.append_assoc]
  obtain ⟨hi, -⟩ := List.getElem?_eq_some_iff.1 task
  refine ⟨fun id ↦ ?_, fun j hj ↦ ?_⟩
  · rw [Orchestrator.claims, Orchestrator.claims, hretries, claimedBy_append_right, claimedBy_append_right,
      claimedBy_singleton task]
    show 0 + claimedBy o.tasks (queue ++ if error then errored ++ [i] else errored) id +
      (o.executions.map fun x ↦ x.pending.count id).sum + (o.tasks.map (·.claims id)).sum +
        (if error then [] else [t.step.id]).count id ≤ _
    rw [claimedBy_append_right]
    cases error with
    | true =>
      rw [if_pos rfl, if_pos rfl, claimedBy_append_right, claimedBy_singleton task, List.count_nil]
      omega
    | false =>
      rw [if_neg Bool.false_ne_true, if_neg Bool.false_ne_true, List.count_nil]
      omega
  · have hj' : j ∈ queue ++ if error then errored ++ [i] else errored := hj
    refine range j (hretries ▸ ?_)
    cases error with
    | true =>
      rcases List.mem_append.1 hj' with hj' | hj'
      · exact List.mem_append_right _ (List.mem_append_left _ hj')
      · rcases List.mem_append.1 hj' with hj' | hj'
        · exact List.mem_append_right _ (List.mem_append_right _ hj')
        · exact List.mem_append_left _ hj'
    | false => exact List.mem_append_right _ hj'

end

section

variable (registry : _Registry) (record : AuthorizationRecord) (settings : Settings)
variable [u : UnicodeTables]

/-- The steps that a step of the machine takes up. -/
def taken (o : Orchestrator) : EngineEvent → List ℕ
  | .main (.coordinate elects_stop) =>
    if elects_stop then [] else o.main.elim [] fun m ↦ (toExecute settings o m).map (·.id)
  | .main (.replan answer) =>
    o.main.elim [] fun m ↦
      match m.pc with
      | .replanning iteration =>
        if o.stopsReplanning record settings iteration answer then []
        else (gapRows registry record settings o m answer.classes).map (·.id)
      | _ => []
  | .approve step_id _ _ =>
    if o.held step_id ∧ o.assessment.state ∈ TERMINAL_STATES then [step_id] else []
  | _ => []

variable {registry record settings} {o o' : Orchestrator} {m : Main}

/-! ### One step -/

/-- **A step of the run.** -/
theorem flow_mainStep (range : o.InRange) (main : o.main = some m) {e : MainEvent}
    (h : mainStep registry record settings o m e = some o') :
    Flow o (taken registry record settings o (.main e)) (o.completions (.main e)) o' := by
  cases e with
  | enter now =>
    simp only [mainStep] at h
    split at h
    next n pc => exact Option.some.inj h ▸ flow_enter n now
    next => cases h
  | discovered found =>
    simp only [mainStep] at h
    split at h
    · rw [← Option.some.inj h]
      obtain ⟨endpoints, nextId, -, heq⟩ := addEndpoints_eq o found
      refine flow_endPhase _ _ ?_ ?_
      · show (o.addEndpoints found).1.executions = _
        rw [heq]
      · show (o.addEndpoints found).1.tasks = _
        rw [heq]
    · cases h
  | plan multi strategy order =>
    simp only [mainStep] at h
    split at h
    · rw [← Option.some.inj h, _phase_planning, freeze_eq]
      exact .of_main rfl rfl
    · cases h
  | policy =>
    simp only [mainStep] at h
    split at h
    · rw [← Option.some.inj h]
      have hfrozen : (judgeAll registry record settings o (underReview settings o m)).freeze.executions =
          o.executions ∧ (judgeAll registry record settings o (underReview settings o m)).freeze.tasks =
            o.tasks := by
        rw [freeze_eq]
        exact ⟨rfl, rfl⟩
      obtain ⟨hexecutions, htasks⟩ := hfrozen
      unfold _phase_policy
      dsimp only
      split_ifs <;> exact .of_main rfl rfl hexecutions htasks
    · cases h
  | poll expired =>
    simp only [mainStep] at h
    split at h
    · rw [← Option.some.inj h]
      unfold _await_step_approvals
      dsimp only
      split <;> exact .of_main rfl rfl
    · cases h
  | coordinate elects_stop =>
    simp only [mainStep] at h
    split at h
    next pc =>
      rw [← Option.some.inj h, coordinate]
      split
      · exact (flow_endPhase m .validate).widen _
      next hgoes =>
        have helects : elects_stop = false := by simpa using fun h ↦ hgoes (Or.inr h)
        have hempty : o.loggedIn = [] ∧ o.retries = [] := by
          rw [loggedIn, retries, main, Option.elim, Option.elim, pc]
          exact ⟨rfl, rfl⟩
        have htaken : taken registry record settings o (.main (.coordinate elects_stop)) =
            (toExecute settings o m).map (·.id) := by rw [taken, helects, main]; rfl
        refine ⟨fun id ↦ ?_, fun i hi ↦ by cases hi⟩
        rw [Orchestrator.claims, Orchestrator.claims, htaken, hempty.1, hempty.2]
        show ((toExecute settings o m).map (·.id)).count id + 0 +
          (o.executions.map fun x ↦ x.pending.count id).sum + (o.tasks.map (·.claims id)).sum + 0 ≤ _
        omega
    next => cases h
  | send =>
    simp only [mainStep] at h
    split at h
    · exact Option.some.inj h ▸ .of_eq range
    · cases h
  | dispatch =>
    simp only [mainStep] at h
    split at h
    next steps pc =>
      obtain ⟨tasks, agents, rfl⟩ := Option.map_eq_some_iff.1 h
      have hlogged : o.loggedIn = steps.map (·.id) := by rw [loggedIn, main, Option.elim, pc]; rfl
      rw [freeze_eq]
      refine ⟨fun id ↦ ?_, fun i hi ↦ by cases hi⟩
      have hle := claims_agentsFor agents id
      rw [Orchestrator.claims, Orchestrator.claims, hlogged]
      show 0 + 0 + (o.executions.map fun x ↦ x.pending.count id).sum +
        ((o.tasks ++ tasks).map (·.claims id)).sum + 0 ≤ _
      rw [List.map_append, List.sum_append]
      omega
    next => cases h
  | deliver i noticed =>
    simp only [mainStep] at h
    split at h
    next pool errored pc =>
      obtain ⟨⟨t, error⟩, hresult, rfl⟩ := Option.map_eq_some_iff.1 h
      dsimp only
      split
      next hstop =>
        rw [completions_of_none (by rw [delivered, if_pos hstop])]
        cases m.client <;> exact flow_endPhase m .validate
      next hgoes =>
        have hdelivered : o.delivered (.main (.deliver i noticed)) = some t := by
          rw [delivered, if_neg hgoes, main, Option.bind_some, pc]
          dsimp only
          rw [hresult]
          rfl
        rw [completions_of_delivered hdelivered (resultOf_eq_some hresult).2]
        exact flow_consume_main range main pc hresult
    next iteration pool pc =>
      obtain ⟨⟨t, error⟩, hresult, rfl⟩ := Option.map_eq_some_iff.1 h
      dsimp only
      split
      next hstop =>
        rw [completions_of_none (by rw [delivered, if_pos hstop.symm])]
        exact .of_main rfl rfl
      next hgoes =>
        have hdelivered : o.delivered (.main (.deliver i noticed)) = some t := by
          rw [delivered, if_neg fun h ↦ hgoes h.symm, main, Option.bind_some, pc]
          dsimp only
          rw [hresult]
          rfl
        rw [completions_of_delivered hdelivered (resultOf_eq_some hresult).2]
        exact flow_consume range hresult
    next => cases h
  | drained =>
    simp only [mainStep] at h
    split at h
    next pool errored pc =>
      have hlogged : o.loggedIn = [] := by rw [loggedIn, main, Option.elim, pc]; rfl
      have hretries : o.retries = errored := by rw [retries, main, Option.elim, pc]; rfl
      split at h
      · exact Option.some.inj h ▸ .of_eq range hlogged.symm hretries.symm
      · cases h
    next iteration pool pc =>
      split at h
      · exact Option.some.inj h ▸ .of_main rfl rfl
      · cases h
    next => cases h
  | retry noticed =>
    simp only [mainStep] at h
    split at h
    next attempt queue errored pc =>
      have hlogged : o.loggedIn = [] := by rw [loggedIn, main, Option.elim, pc]; rfl
      have hretries : o.retries = queue ++ errored := by rw [retries, main, Option.elim, pc]; rfl
      rw [retry.eq_def] at h
      split at h
      next i rest =>
        obtain ⟨t, task, rfl⟩ := Option.map_eq_some_iff.1 h
        exact .of_task range task rfl rfl rfl hlogged.symm hretries.symm
      next =>
        split at h
        · exact Option.some.inj h ▸ .of_main rfl rfl
        · exact Option.some.inj h ▸ .of_eq range hlogged.symm
            ((List.append_nil _).trans hretries.symm)
    next => cases h
  | retried =>
    simp only [mainStep] at h
    split at h
    next attempt i queue errored pc =>
      rw [retried.eq_def] at h
      split at h
      next t task =>
        split at h
        next error state =>
          rw [← Option.some.inj h]
          have hdelivered : o.delivered (.main .retried) = some t := by
            rw [delivered, main, Option.bind_some, pc]
            exact task
          rw [completions_of_delivered hdelivered state]
          exact flow_retried range main pc task
        next => cases h
      next => cases h
    next => cases h
  | replan answer =>
    simp only [mainStep] at h
    split at h
    next iteration pc =>
      rw [_maybe_replan] at h
      split at h
      · cases h
      split at h
      · exact Option.some.inj h ▸ (flow_endPhase m .validate).widen _
      next hgoes =>
        obtain ⟨tasks, agents, rfl⟩ := Option.map_eq_some_iff.1 h
        have htaken : taken registry record settings o (.main (.replan answer)) =
            (gapRows registry record settings o m answer.classes).map (·.id) := by
          rw [taken, main, Option.elim, pc]
          exact if_neg fun hstop ↦ hgoes (Or.inl hstop)
        rw [htaken]
        refine ⟨fun id ↦ ?_, fun i hi ↦ by cases hi⟩
        have hle := claims_agentsFor agents id
        rw [Orchestrator.claims, Orchestrator.claims]
        show 0 + 0 + (o.executions.map fun x ↦ x.pending.count id).sum +
          ((o.tasks ++ tasks).map (·.claims id)).sum + 0 ≤ _
        rw [List.map_append, List.sum_append]
        omega
    next => cases h
  | validated =>
    simp only [mainStep] at h
    split at h
    · exact Option.some.inj h ▸ flow_endPhase m .score
    · cases h
  | scored =>
    simp only [mainStep] at h
    split at h
    · rw [← Option.some.inj h]
      obtain ⟨coverage, heq⟩ := _phase_score_eq registry record o
      rw [heq]
      exact .of_main rfl rfl
    · cases h
  | reported | cancelled =>
    simp only [mainStep] at h
    split at h
    · exact Option.some.inj h ▸ .of_main rfl rfl
    · cases h
  | raise error =>
    simp only [mainStep] at h
    split at h
    · cases h
    · rw [← Option.some.inj h, raise]
      split
      · exact .of_main rfl rfl (closeMain_executions o m) (closeMain_tasks o m)
      · exact .of_main rfl rfl
  | leave =>
    simp only [mainStep] at h
    split at h
    · exact Option.some.inj h ▸ .of_main rfl rfl (closeMain_executions o m) (closeMain_tasks o m)
    · cases h

omit u in
/-- The copies an execution takes of its steps. -/
theorem count_reload_steps (nodup : (o.steps.map (·.id)).Nodup) (ids : List ℕ) (P : PlanStep → Bool)
    (id : ℕ) : (((o._reload_steps ids).filter P).map (·.id)).count id ≤ ids.count id := by
  have hsublist : (((o._reload_steps ids).filter P).map (·.id)).Sublist (o.steps.map (·.id)) :=
    (List.filter_sublist.trans List.filter_sublist).map _
  have hone := List.nodup_iff_count_le_one.1 (nodup.sublist hsublist) id
  by_cases hid : id ∈ ((o._reload_steps ids).filter P).map (·.id)
  · obtain ⟨s, hs, rfl⟩ := List.mem_map.1 hid
    have hmem := List.of_mem_filter (List.mem_of_mem_filter hs)
    exact hone.trans (List.count_pos_iff.2 (List.contains_iff_mem.1 hmem))
  · rw [List.count_eq_zero.2 hid]
    exact Nat.zero_le _

/-- **A step of an execution.** -/
theorem flow_executionStep (range : o.InRange) (nodup : (o.steps.map (·.id)).Nodup) {j : ℕ} {x : Execution}
    (execution : o.executions[j]? = some x) {e : ExecutionEvent}
    (h : executionStep registry record settings o j x e = some o') :
    Flow o [] (o.completions (.execution j e)) o' := by
  have hnothing : ∀ {x' : Execution}, x'.pending = [] → ∀ id, x'.pending.count id ≤ x.pending.count id :=
    fun hnil id ↦ by rw [hnil]; exact Nat.zero_le _
  cases e with
  | begin now =>
    simp only [executionStep] at h
    split at h
    next pc =>
      rw [← Option.some.inj h, execute_approved_steps]
      split
      · exact .of_execution range execution rfl (hnothing rfl)
      split
      · exact .of_execution range execution rfl (hnothing rfl)
      · refine .of_execution range execution rfl fun id ↦ ?_
        have hpending : x.pending = x.step_ids := by rw [Execution.pending, pc]
        rw [hpending]
        exact count_reload_steps nodup x.step_ids _ id
    next => cases h
  | send =>
    simp only [executionStep] at h
    split at h
    · exact Option.some.inj h ▸ .of_eq range
    · cases h
  | dispatch =>
    simp only [executionStep] at h
    split at h
    next steps pc =>
      obtain ⟨tasks, agents, rfl⟩ := Option.map_eq_some_iff.1 h
      have hpending : x.pending = steps.map (·.id) := by rw [Execution.pending, pc]
      rw [freeze_eq]
      refine ⟨fun id ↦ ?_, fun i hi ↦ ?_⟩
      · have hle := claims_agentsFor agents id
        have hsum := @sum_map_set _ (fun x : Execution ↦ x.pending.count id) _ _ _
          { x with pc := .streaming o.pools } execution
        have hnew : (Execution.pending { x with pc := .streaming o.pools }).count id = 0 := rfl
        have hbefore := claimedBy_append range tasks id
        rw [hnew, hpending] at hsum
        rw [Orchestrator.claims, Orchestrator.claims, ← hbefore]
        show o.loggedIn.count id + claimedBy (o.tasks ++ tasks) o.retries id +
          ((o.executions.set j { x with pc := .streaming o.pools }).map fun x ↦ x.pending.count id).sum +
            ((o.tasks ++ tasks).map (·.claims id)).sum + 0 ≤ _
        rw [List.map_append, List.sum_append]
        omega
      · show i < (o.tasks ++ tasks).length
        rw [List.length_append]
        exact Nat.lt_add_right _ (range i hi)
    next => cases h
  | deliver i noticed =>
    simp only [executionStep] at h
    split at h
    next pool pc =>
      obtain ⟨⟨t, error⟩, hresult, rfl⟩ := Option.map_eq_some_iff.1 h
      dsimp only
      split
      next hstop =>
        rw [completions_of_none (by rw [delivered, if_pos hstop.symm])]
        exact .of_execution range execution rfl (hnothing rfl)
      next hgoes =>
        have hdelivered : o.delivered (.execution j (.deliver i noticed)) = some t := by
          rw [delivered, if_neg fun h ↦ hgoes h.symm, execution, Option.bind_some, pc]
          dsimp only
          rw [hresult]
          rfl
        rw [completions_of_delivered hdelivered (resultOf_eq_some hresult).2]
        exact flow_consume range hresult
    next => cases h
  | drained =>
    simp only [executionStep] at h
    split at h
    · split at h
      · exact Option.some.inj h ▸ .of_execution range execution rfl (hnothing rfl)
      · cases h
    · cases h
  | validated =>
    simp only [executionStep] at h
    split at h
    · exact Option.some.inj h ▸ .of_execution range execution rfl (hnothing rfl)
    · cases h
  | scored =>
    simp only [executionStep] at h
    split at h
    · rw [← Option.some.inj h]
      obtain ⟨coverage, heq⟩ := _phase_score_eq registry record o
      rw [heq]
      exact .of_execution range execution rfl (hnothing rfl)
    · cases h
  | raise =>
    simp only [executionStep] at h
    split at h
    · cases h
    · exact Option.some.inj h ▸ .of_execution range execution rfl (hnothing rfl)

omit u in
/-- **A step of an agent.** -/
theorem flow_taskStep (range : o.InRange) {i : ℕ} {t : AgentTask} (task : o.tasks[i]? = some t)
    {e : TaskEvent} (h : taskStep settings o i t e = some o') : Flow o [] [] o' := by
  cases e with
  | begin noticed | finish error =>
    simp only [taskStep] at h
    split at h
    · exact Option.some.inj h ▸ .of_task range task rfl rfl rfl
    · cases h
  | act invoke =>
    simp only [taskStep] at h
    split at h
    · split at h
      · rw [← Option.some.inj h]
        split <;> exact .of_task range task rfl rfl rfl
      · cases h
    · cases h
  | send =>
    simp only [taskStep] at h
    split at h
    · split at h
      · exact Option.some.inj h ▸ .of_task range task rfl rfl rfl
      · cases h
    · cases h
  | receive =>
    simp only [taskStep] at h
    split at h
    · split at h
      · cases h
      · exact Option.some.inj h ▸ .of_task range task rfl rfl rfl
    · cases h

omit u in
theorem claims_crash (o : Orchestrator) (id : ℕ) : o.crash.claims id = 0 := by
  have htasks : ∀ tasks : List AgentTask, ((tasks.map fun t ↦
      { t with state := .finished true, delivered := true }).map (·.claims id)).sum = 0 := by
    intro tasks
    induction tasks with
    | nil => rfl
    | cons t tasks ih =>
      have hnone : AgentTask.claims id { t with state := .finished true, delivered := true } = 0 :=
        if_neg fun h ↦ by cases h.1
      rw [List.map_cons, List.map_cons, List.sum_cons, ih, hnone]
  have hcrash : (o.crash.tasks.map (·.claims id)).sum = 0 := htasks o.tasks
  show 0 + 0 + 0 + (o.crash.tasks.map (·.claims id)).sum = 0
  rw [hcrash]

/-- **The inversion on claims.** -/
theorem flow_of_step (range : o.InRange) (nodup : (o.steps.map (·.id)).Nodup) {e : EngineEvent}
    (h : step registry record settings o e = some o') :
    Flow o (taken registry record settings o e) (o.completions e) o' := by
  cases e with
  | main e =>
    obtain ⟨m, main, h⟩ := Option.bind_eq_some_iff.1 h
    exact flow_mainStep range main h
  | execution j e =>
    obtain ⟨x, execution, h⟩ := Option.bind_eq_some_iff.1 h
    exact flow_executionStep range nodup execution h
  | task i e =>
    obtain ⟨t, task, h⟩ := Option.bind_eq_some_iff.1 h
    exact flow_taskStep range task h
  | start reset =>
    rw [← Option.some.inj h, start]
    split
    · cases reset
      · exact flow_start_assessment range
      · exact (flow_start_assessment (o := { o with assessment := { o.assessment with
          cancel_requested := false, error := "" } }) range).before
    · exact .of_eq range
  | cancel =>
    rw [← Option.some.inj h, cancel]
    dsimp only
    split_ifs <;> exact .of_eq range
  | cancel_all =>
    rw [← Option.some.inj h, cancel_all]
    split <;> exact .of_eq range
  | approve step_id user_id note =>
    rw [← Option.some.inj h, approve_step]
    by_cases hheld : o.held step_id = true
    · rw [if_pos hheld]
      dsimp only
      split
      next hterminal =>
        have htaken : taken registry record settings o (.approve step_id user_id note) = [step_id] :=
          if_pos ⟨hheld, hterminal⟩
        rw [htaken]
        refine Flow.before (flow_start_approved_steps ?_ [step_id])
        exact range
      next =>
        refine Flow.widen (Flow.before (flow_resume_if_parked ?_)) _
        exact range
    · rw [if_neg hheld]
      exact (Flow.of_eq range).widen _
  | deny step_id user_id note =>
    rw [← Option.some.inj h, deny_step]
    split
    · refine Flow.before (flow_resume_if_parked ?_)
      exact range
    · exact .of_eq range
  | triage | register skills => exact Option.some.inj h ▸ .of_eq range
  | ingest found =>
    rw [← Option.some.inj h]
    obtain ⟨endpoints, nextId, -, heq⟩ := addEndpoints_eq o found
    rw [heq]
    exact .of_eq range
  | restart =>
    have hcrash : o.crash.InRange := fun i hi ↦ by cases hi
    have hflow : Flow o.crash [] [] o' := by
      rw [← Option.some.inj h, resume_incomplete_assessments]
      split
      · exact .of_eq hcrash
      split
      · exact flow_start_assessment hcrash
      · refine Flow.before (flow_start_assessment ?_)
        exact hcrash
    refine ⟨fun id ↦ ?_, hflow.range⟩
    have hle := hflow.claims id
    rw [claims_crash] at hle
    exact hle.trans (Nat.zero_le _)

/-! ### The table of steps -/

/-- What never changes of a stored step. -/
def entry (s : PlanStep) : ℕ × ℕ × String × String := (s.id, s.key)

/-- The rows that a step of the machine inserts. -/
def inserted (registry : _Registry) (record : AuthorizationRecord) (settings : Settings)
    (o : Orchestrator) : EngineEvent → List PlanStep
  | .main (.plan multi strategy order) =>
    o.main.elim [] fun m ↦
      o.numbered ((planOf registry record settings o m multi strategy order).map plannedRow)
  | .main (.replan answer) =>
    o.main.elim [] fun m ↦
      match m.pc with
      | .replanning iteration =>
        if o.stopsReplanning record settings iteration answer then []
        else gapRows registry record settings o m answer.classes
      | _ => []
  | _ => []

/-- **The inversion on the table of steps.** -/
inductive Rows (o : Orchestrator) (e : EngineEvent) (rows : List PlanStep) (o' : Orchestrator) : Prop
  | stored (entries : o'.steps.map entry = (o.steps ++ rows).map entry)
    (nextId : o.nextId + rows.length ≤ o'.nextId)
  | cleared (restart : e = .restart) (steps : o'.steps = []) (rows : rows = []) (nextId : o.nextId ≤ o'.nextId)

omit u in
theorem Rows.of_steps {e : EngineEvent} (steps : o'.steps = o.steps) (nextId : o.nextId ≤ o'.nextId) :
    Rows o e [] o' :=
  .stored (by rw [steps, List.append_nil]) nextId

omit u in
/-- Rows are written, but not what never changes. -/
theorem map_entry_map {steps : List PlanStep} {f : PlanStep → PlanStep}
    (h : ∀ s ∈ steps, entry (f s) = entry s) : (steps.map f).map entry = (steps ++ []).map entry := by
  rw [List.append_nil, List.map_map]
  exact List.map_congr_left h

/-- Neither planning nor replanning nor the sweep. -/
theorem rows_of_move {e : EngineEvent} (hplan : ∀ multi strategy order, e ≠ .main (.plan multi strategy order))
    (hreplan : ∀ answer, e ≠ .main (.replan answer)) (hrestart : e ≠ .restart)
    (h : Move registry record settings o e o') : Rows o e [] o' := by
  have hnext := nextId_of_move h
  cases h with
  | control control => exact .of_steps control.steps hnext
  | planned main pc => exact absurd rfl (hplan _ _ _)
  | @judged m main pc =>
    refine .stored ?_ hnext
    rw [phase_policy_steps]
    refine map_entry_map fun s _ ↦ ?_
    split
    · obtain ⟨hid, hendpoint, hclass, hname⟩ :=
        judge_same registry (_make_guard record settings) settings o._declaratives s
      rw [entry, entry, PlanStep.key, PlanStep.key, hid, hendpoint, hclass, hname]
    · rfl
  | polled main pc => exact .of_steps (await_step_approvals_steps ..) hnext
  | takes main pc => exact .of_steps rfl hnext
  | dispatched main pc agents => exact .of_steps (by rw [freeze_eq]; rfl) hnext
  | settled task state control =>
    refine .stored ?_ hnext
    rw [control.steps]
    refine map_entry_map fun s _ ↦ ?_
    split <;> rfl
  | replanned main pc goes order agents => exact absurd rfl (hreplan _)
  | @began j x now execution =>
    by_cases hnone : (o._reload_steps x.step_ids).filter (·.status == .approved) = []
    · refine .of_steps ?_ hnext
      rw [execute_approved_steps, if_pos hnone]
      rfl
    by_cases hactive : ((_make_guard record settings).check_record_active now).allowed = true
    · refine .of_steps ?_ hnext
      rw [execute_approved_steps, if_neg hnone, if_neg (not_not.2 hactive)]
      rfl
    · refine .stored ?_ hnext
      rw [execute_approved_steps, if_neg hnone, if_pos hactive]
      refine map_entry_map fun s _ ↦ ?_
      split <;> rfl
  | executed execution pc agents => exact .of_steps (by rw [freeze_eq]; rfl) hnext
  | invoked task control => exact .of_steps control.steps hnext
  | approved held control | denied held control =>
    refine .stored ?_ hnext
    rw [control.steps]
    refine map_entry_map fun s _ ↦ ?_
    split <;> rfl
  | cancelled cancels control => exact .of_steps control.steps hnext
  | cleared control => exact absurd rfl hrestart

omit u in
/-- The sweep keeps the steps, or it clears them when it restarts from nothing. -/
theorem steps_restart (settings : Settings) (o : Orchestrator) :
    (resume_incomplete_assessments settings o.crash).nextId = o.nextId ∧
      (resume_incomplete_assessments settings o.crash).steps =
        if o.restarts settings then [] else o.steps := by
  have hlaunch : ∀ o₁ : Orchestrator, (start_assessment settings o₁).nextId = o₁.nextId ∧
      (start_assessment settings o₁).steps = o₁.steps := by
    intro o₁
    rw [start_assessment]
    split <;> exact ⟨rfl, rfl⟩
  have hcond : (o.crash.assessment.state ∈ TERMINAL_STATES ∨ o.crash.assessment.started = false ∨
      o.crash.main.isSome = true) ↔
        o.assessment.state ∈ TERMINAL_STATES ∨ o.assessment.started = false := by
    refine or_congr_right ⟨?_, Or.inl⟩
    rintro (hstarted | hmain)
    · exact hstarted
    · cases hmain
  rw [resume_incomplete_assessments]
  by_cases hover : o.assessment.state ∈ TERMINAL_STATES ∨ o.assessment.started = false
  · have hno : o.restarts settings = false := by
      refine decide_eq_false fun hrestarts ↦ ?_
      rcases hover with hover | hover
      · exact hrestarts.1 hover
      · exact Bool.false_ne_true (hover.symm.trans hrestarts.2.1)
    rw [if_pos (hcond.2 hover), hno]
    exact ⟨rfl, rfl⟩
  have hthread : o.crash.thread = o.thread := rfl
  rw [if_neg fun h ↦ hover (hcond.1 h), hthread]
  obtain ⟨hopen, hstarted⟩ := not_or.1 hover
  by_cases hgraph : settings.use_langgraph = true ∧ o.thread.isSome = true
  · have hno : o.restarts settings = false := decide_eq_false fun hrestarts ↦ hrestarts.2.2 hgraph
    rw [if_pos hgraph, hno]
    exact hlaunch o.crash
  · have hyes : o.restarts settings = true :=
      decide_eq_true ⟨hopen, by simpa using hstarted, hgraph⟩
    rw [if_neg hgraph, hyes]
    exact hlaunch _

theorem rows_of_step {e : EngineEvent} (h : step registry record settings o e = some o') :
    Rows o e (inserted registry record settings o e) o' := by
  by_cases hplan : ∃ multi strategy order, e = .main (.plan multi strategy order)
  · obtain ⟨multi, strategy, order, rfl⟩ := hplan
    obtain ⟨m, main, h⟩ := Option.bind_eq_some_iff.1 h
    simp only [mainStep] at h
    split at h
    · rw [← Option.some.inj h, _phase_planning, freeze_eq, inserted, main]
      refine .stored rfl ?_
      rw [Option.elim, length_numbered]
      show _ ≤ o.nextId + (o.numbered _).length
      rw [length_numbered]
    · cases h
  by_cases hreplan : ∃ answer, e = .main (.replan answer)
  · obtain ⟨answer, rfl⟩ := hreplan
    obtain ⟨m, main, h⟩ := Option.bind_eq_some_iff.1 h
    simp only [mainStep] at h
    split at h
    next iteration pc =>
      rw [_maybe_replan] at h
      split at h
      · cases h
      split at h
      next hstop =>
        have hnone : inserted registry record settings o (.main (.replan answer)) = [] := by
          rw [inserted, main, Option.elim, pc]
          rcases hstop with hstop | hgaps
          · exact if_pos hstop
          · dsimp only
            rw [gapRows, hgaps, List.take_nil]
            split <;> rfl
        have hcontrol : Control o (endPhase settings o m .validate) :=
          control_endPhase (.refl o) main rfl rfl (by decide)
        rw [hnone, ← Option.some.inj h]
        exact .of_steps hcontrol.steps hcontrol.nextId
      next hgoes =>
        obtain ⟨tasks, agents, rfl⟩ := Option.map_eq_some_iff.1 h
        have hrows : inserted registry record settings o (.main (.replan answer)) =
            gapRows registry record settings o m answer.classes := by
          rw [inserted, main, Option.elim, pc]
          exact if_neg fun hstop ↦ hgoes (Or.inl hstop)
        rw [hrows]
        exact .stored rfl (Nat.le_refl _)
    next => cases h
  by_cases hrestart : e = .restart
  · subst hrestart
    obtain ⟨hnext, hsteps⟩ := steps_restart settings o
    rw [← Option.some.inj h]
    show Rows o .restart [] _
    cases hswept : o.restarts settings with
    | true =>
      rw [hswept] at hsteps
      exact .cleared rfl hsteps rfl hnext.ge
    | false =>
      rw [hswept] at hsteps
      exact .of_steps hsteps hnext.ge
  have hnone : inserted registry record settings o e = [] := by
    rw [inserted.eq_def]
    split
    · exact absurd ⟨_, _, _, rfl⟩ hplan
    · exact absurd ⟨_, rfl⟩ hreplan
    · rfl
  rw [hnone]
  exact rows_of_move (fun multi strategy order he ↦ hplan ⟨multi, strategy, order, he⟩)
    (fun answer he ↦ hreplan ⟨answer, he⟩) hrestart (move_of_step h)

/-! ### What becomes of the steps -/

/-- The result that is consumed is written. -/
theorem steps_of_delivered {e : EngineEvent} {t : AgentTask} {error : Bool}
    (delivered : o.delivered e = some t) (state : t.state = .finished error)
    (h : step registry record settings o e = some o') :
    o'.steps = (o._persist_agent_result t error).steps := by
  have hconsume : ∀ {pool i : ℕ} {t' : AgentTask} {error' : Bool},
      o.resultOf pool i = some (t', error') → (o.resultOf pool i).map Prod.fst = some t →
        t' = t ∧ error' = error := by
    intro pool i t' error' hresult hfst
    rw [hresult] at hfst
    obtain rfl : t' = t := Option.some.inj hfst
    have hstate := (resultOf_eq_some hresult).2
    exact ⟨rfl, TaskState.finished.inj (hstate.symm.trans state)⟩
  rw [Orchestrator.delivered.eq_def] at delivered
  split at delivered
  next i noticed =>
    split at delivered
    · cases delivered
    next hgoes =>
      obtain ⟨m, main, hfst⟩ := Option.bind_eq_some_iff.1 delivered
      obtain ⟨m', main', h⟩ := Option.bind_eq_some_iff.1 h
      obtain rfl := Option.some.inj (main.symm.trans main')
      simp only [mainStep] at h
      split at h
      next pool errored pc =>
        rw [pc] at hfst
        obtain ⟨⟨t', error'⟩, hresult, rfl⟩ := Option.map_eq_some_iff.1 h
        obtain ⟨rfl, rfl⟩ := hconsume hresult hfst
        dsimp only
        rw [if_neg hgoes]
        rfl
      next iteration pool pc =>
        rw [pc] at hfst
        obtain ⟨⟨t', error'⟩, hresult, rfl⟩ := Option.map_eq_some_iff.1 h
        obtain ⟨rfl, rfl⟩ := hconsume hresult hfst
        dsimp only
        rw [if_neg fun h ↦ hgoes h.symm]
        rfl
      next => cases h
  next =>
    obtain ⟨m, main, hfst⟩ := Option.bind_eq_some_iff.1 delivered
    obtain ⟨m', main', h⟩ := Option.bind_eq_some_iff.1 h
    obtain rfl := Option.some.inj (main.symm.trans main')
    simp only [mainStep] at h
    split at h
    next attempt i queue errored pc =>
      rw [pc] at hfst
      have task : o.tasks[i]? = some t := hfst
      rw [retried, task] at h
      dsimp only at h
      rw [state] at h
      rw [← Option.some.inj h]
      rfl
    next => cases h
  next j i noticed =>
    split at delivered
    · cases delivered
    next hgoes =>
      obtain ⟨x, execution, hfst⟩ := Option.bind_eq_some_iff.1 delivered
      obtain ⟨x', execution', h⟩ := Option.bind_eq_some_iff.1 h
      obtain rfl := Option.some.inj (execution.symm.trans execution')
      simp only [executionStep] at h
      split at h
      next pool pc =>
        rw [pc] at hfst
        obtain ⟨⟨t', error'⟩, hresult, rfl⟩ := Option.map_eq_some_iff.1 h
        obtain ⟨rfl, rfl⟩ := hconsume hresult hfst
        dsimp only
        rw [if_neg fun h ↦ hgoes h.symm]
        rfl
      next => cases h
  next => cases delivered

/-- A step that is completed is done. -/
theorem done_of_completed {e : EngineEvent} {id : ℕ} (hid : id ∈ o.completions e)
    (h : step registry record settings o e = some o') {s : PlanStep} (hs : s ∈ o'.steps)
    (heq : s.id = id) : s.status = .done := by
  obtain ⟨t, ht, hsome⟩ := List.mem_filterMap.1 hid
  split at hsome
  next hstate =>
    obtain rfl := Option.some.inj hsome
    have hsteps := steps_of_delivered (Option.mem_toList.1 ht) hstate h
    rw [hsteps] at hs
    obtain ⟨r, hr, rfl⟩ := List.mem_map.1 hs
    split at heq
    next hid => rw [if_pos hid]; rfl
    next hid => exact absurd heq hid
  next => cases hsome

omit u in
/-- A stored step that is held is the one with its id. -/
theorem status_of_held (nodup : (o.steps.map (·.id)).Nodup) {s : PlanStep} (hs : s ∈ o.steps)
    (held : o.held s.id = true) : s.status = .awaiting_approval := by
  rw [Orchestrator.held, Option.any_eq_true] at held
  obtain ⟨r, hr, hstatus⟩ := held
  have hfound := List.find?_some hr
  have hid : r.id = s.id := beq_iff_eq.1 hfound
  rw [← List.inj_on_of_nodup_map nodup (List.mem_of_find?_eq_some hr) hs hid]
  exact beq_iff_eq.1 hstatus

/-- A step that is taken up is stored, or it is inserted. -/
theorem taken_cases (graph : settings.use_langgraph = true) {e : EngineEvent} {id : ℕ}
    (hid : id ∈ taken registry record settings o e) :
    (∃ elects_stop, e = .main (.coordinate elects_stop)) ∧
        (∃ s ∈ o.steps, s.id = id ∧ s.status = .approved) ∨
      (∃ answer, e = .main (.replan answer)) ∧
        (∃ s ∈ inserted registry record settings o e, s.id = id ∧ s.status = .approved) ∨
      (∃ user_id note, e = .approve id user_id note) ∧ o.held id = true := by
  rw [taken.eq_def] at hid
  split at hid
  next elects_stop =>
    split at hid
    · cases hid
    · cases hmain : o.main with
      | none =>
        rw [hmain] at hid
        cases hid
      | some m =>
        rw [hmain, Option.elim, toExecute, if_pos graph] at hid
        obtain ⟨s, hs, rfl⟩ := List.mem_map.1 hid
        have hstatus := List.of_mem_filter hs
        exact Or.inl ⟨⟨_, rfl⟩, s, List.mem_of_mem_filter hs, rfl, beq_iff_eq.1 hstatus⟩
  next answer =>
    cases hmain : o.main with
    | none =>
      rw [hmain] at hid
      cases hid
    | some m =>
      rw [hmain] at hid
      dsimp only [Option.elim] at hid
      split at hid
      next iteration pc =>
        split at hid
        · cases hid
        next hgoes =>
          obtain ⟨s, hs, rfl⟩ := List.mem_map.1 hid
          refine Or.inr (Or.inl ⟨⟨_, rfl⟩, s, ?_, rfl, ?_⟩)
          · rw [inserted, hmain, Option.elim, pc]
            dsimp only
            rw [if_neg hgoes]
            exact hs
          · obtain ⟨r, hr, i, -, rfl⟩ := mem_numbered hs
            obtain ⟨gap, -, rfl⟩ := List.mem_map.1 hr
            rfl
      next => cases hid
  next step_id user_id note =>
    split at hid
    next hheld =>
      rw [List.mem_singleton.1 hid]
      exact Or.inr (Or.inr ⟨⟨_, _, rfl⟩, hheld.1⟩)
    next => cases hid
  next => cases hid

/-! ### At most once -/

omit u in
/-- **The invariant**: a step is in one place on its way to a result, or its result is written, or neither;
and neither while it waits for policy or for an operator. -/
structure Tallied (o : Orchestrator) (completed : List ℕ) : Prop where
  nodup : (o.steps.map (·.id)).Nodup
  below : ∀ s ∈ o.steps, s.id < o.nextId
  range : o.InRange
  once : ∀ id, o.claims id + completed.count id ≤ 1
  fresh : ∀ id, o.nextId ≤ id → o.claims id + completed.count id = 0
  waiting : ∀ s ∈ o.steps, s.status = .planned ∨ s.status = .awaiting_approval →
    o.claims s.id + completed.count s.id = 0
  approved : ∀ s ∈ o.steps, s.status = .approved → completed.count s.id = 0

variable {completed : List ℕ}

omit u in
theorem ids_of_entries {l l' : List PlanStep} (h : l.map entry = l'.map entry) :
    l.map (·.id) = l'.map (·.id) := by
  have hfst := congrArg (List.map Prod.fst) h
  rw [List.map_map, List.map_map] at hfst
  exact hfst

/-- What is inserted has ids from the counter on. -/
theorem inserted_ids (registry : _Registry) (record : AuthorizationRecord) (settings : Settings)
    (o : Orchestrator) (e : EngineEvent) :
    ((inserted registry record settings o e).map (·.id)).Nodup ∧
      ∀ s ∈ inserted registry record settings o e,
        o.nextId ≤ s.id ∧ s.id < o.nextId + (inserted registry record settings o e).length := by
  have hnumbered : ∀ rows : List PlanStep, ((o.numbered rows).map (·.id)).Nodup ∧
      ∀ s ∈ o.numbered rows, o.nextId ≤ s.id ∧ s.id < o.nextId + (o.numbered rows).length := by
    intro rows
    refine ⟨nodup_numbered rows, fun s hs ↦ ?_⟩
    obtain ⟨r, -, i, hi, rfl⟩ := mem_numbered hs
    rw [length_numbered]
    exact ⟨Nat.le_add_right _ _, Nat.add_lt_add_left hi _⟩
  have hnil : (([] : List PlanStep).map (·.id)).Nodup ∧
      ∀ s ∈ ([] : List PlanStep), o.nextId ≤ s.id ∧ s.id < o.nextId + ([] : List PlanStep).length :=
    ⟨List.nodup_nil, fun s hs ↦ by cases hs⟩
  rw [inserted.eq_def]
  split
  · cases o.main with
    | none => exact hnil
    | some m => exact hnumbered _
  · cases o.main with
    | none => exact hnil
    | some m =>
      dsimp only [Option.elim]
      split
      · split
        · exact hnil
        · exact hnumbered _
      · exact hnil
  · exact hnil

theorem Tallied.rows (hT : o.Tallied completed) {e : EngineEvent}
    (h : step registry record settings o e = some o') :
    (o'.steps.map (·.id)).Nodup ∧ (∀ s ∈ o'.steps, s.id < o'.nextId) ∧
      o.nextId + (inserted registry record settings o e).length ≤ o'.nextId := by
  obtain ⟨hnodup, hids⟩ := inserted_ids registry record settings o e
  cases rows_of_step h with
  | stored entries nextId =>
    have hmap := ids_of_entries entries
    refine ⟨?_, fun s hs ↦ ?_, nextId⟩
    · rw [hmap, List.map_append]
      refine List.nodup_append.2 ⟨hT.nodup, hnodup, fun a ha b hb hab ↦ ?_⟩
      obtain ⟨s, hs, rfl⟩ := List.mem_map.1 ha
      obtain ⟨r, hr, rfl⟩ := List.mem_map.1 hb
      exact absurd (hT.below s hs) (not_lt.2 (hab ▸ (hids r hr).1))
    · have hmem : s.id ∈ (o.steps ++ inserted registry record settings o e).map (·.id) :=
        hmap ▸ List.mem_map.2 ⟨s, hs, rfl⟩
      obtain ⟨r, hr, hid⟩ := List.mem_map.1 hmem
      rw [← hid]
      rcases List.mem_append.1 hr with hr | hr
      · exact (hT.below r hr).trans_le ((Nat.le_add_right _ _).trans nextId)
      · exact (hids r hr).2.trans_le nextId
  | cleared restart steps rows nextId =>
    rw [steps, rows]
    exact ⟨List.nodup_nil, fun s hs ↦ (by cases hs), nextId⟩

/-- What is taken up is nowhere else, and its result is not written. -/
theorem Tallied.taken (hT : o.Tallied completed) (graph : settings.use_langgraph = true) {e : EngineEvent}
    (idle : ∀ elects_stop, e = .main (.coordinate elects_stop) → ∀ id, o.claims id = 0)
    {id : ℕ} (hid : id ∈ Orchestrator.taken registry record settings o e) :
    o.claims id + completed.count id = 0 ∧ (Orchestrator.taken registry record settings o e).count id ≤ 1 := by
  have hsublist : ∀ {ids : List ℕ}, ids.Nodup → ids.count id ≤ 1 :=
    fun h ↦ List.nodup_iff_count_le_one.1 h id
  rcases taken_cases graph hid with ⟨⟨elects_stop, rfl⟩, s, hs, rfl, hstatus⟩ |
    ⟨⟨answer, rfl⟩, s, hs, rfl, -⟩ | ⟨⟨user_id, note, rfl⟩, hheld⟩
  · refine ⟨?_, hsublist ?_⟩
    · rw [idle elects_stop rfl s.id, hT.approved s hs hstatus]
    · rw [Orchestrator.taken]
      cases elects_stop with
      | true => exact List.nodup_nil
      | false =>
        cases o.main with
        | none => exact List.nodup_nil
        | some m =>
          rw [if_neg Bool.false_ne_true, Option.elim, toExecute, if_pos graph]
          exact hT.nodup.sublist (List.filter_sublist.map _)
  · obtain ⟨hnodup, hids⟩ := inserted_ids registry record settings o (.main (.replan answer))
    have hsame : Orchestrator.taken registry record settings o (.main (.replan answer)) =
        (inserted registry record settings o (.main (.replan answer))).map (·.id) := by
      rw [Orchestrator.taken, inserted]
      cases o.main with
      | none => rfl
      | some m =>
        dsimp only [Option.elim]
        split
        · split <;> rfl
        · rfl
    refine ⟨hT.fresh s.id (hids s hs).1, hsublist ?_⟩
    rw [hsame]
    exact hnodup
  · obtain ⟨s, hs, hstatus⟩ : ∃ s ∈ o.steps, s.id = id := by
      rw [Orchestrator.held, Option.any_eq_true] at hheld
      obtain ⟨r, hr, -⟩ := hheld
      have hfound := List.find?_some hr
      exact ⟨r, List.mem_of_find?_eq_some hr, beq_iff_eq.1 hfound⟩
    subst hstatus
    refine ⟨hT.waiting s hs (Or.inr (status_of_held hT.nodup hs hheld)), hsublist ?_⟩
    rw [Orchestrator.taken]
    split
    · exact List.nodup_singleton _
    · exact List.nodup_nil

omit u in
theorem status_decided {id : ℕ} {status : StepStatus} {note : PolicyDecision → PolicyDecision}
    {s : PlanStep} (hs : s ∈ (o.decideStep id status note).steps) (hid : s.id = id) :
    s.status = status := by
  obtain ⟨r, -, rfl⟩ := List.mem_map.1 hs
  split at hid
  next heq =>
    rw [if_pos heq]
  next hne => exact absurd hid hne

/-- What is taken up is approved. -/
theorem Tallied.approved_of_taken (hT : o.Tallied completed) (graph : settings.use_langgraph = true)
    {e : EngineEvent} (h : step registry record settings o e = some o') {s : PlanStep} (hs : s ∈ o'.steps)
    (hid : s.id ∈ Orchestrator.taken registry record settings o e) : s.status = .approved := by
  rcases taken_cases graph hid with ⟨⟨elects_stop, rfl⟩, r, hr, hrid, hstatus⟩ |
    ⟨⟨answer, rfl⟩, r, hr, hrid, hstatus⟩ | ⟨⟨user_id, note, rfl⟩, hheld⟩
  · obtain ⟨m, main, h⟩ := Option.bind_eq_some_iff.1 h
    have hsteps : o'.steps = o.steps := by
      simp only [mainStep] at h
      split at h
      next pc =>
        rw [← Option.some.inj h, coordinate]
        split
        · have hcontrol : Control o (endPhase settings o m .validate) :=
            control_endPhase (.refl o) main rfl rfl (by decide)
          exact hcontrol.steps
        · rfl
      next => cases h
    rw [hsteps] at hs
    rw [← List.inj_on_of_nodup_map hT.nodup hr hs hrid]
    exact hstatus
  · -- the ids of inserted rows are not among those that were stored
    obtain ⟨m, main, h⟩ := Option.bind_eq_some_iff.1 h
    have hfresh := ((inserted_ids registry record settings o (.main (.replan answer))).2 r hr).1
    have hstored : s ∉ o.steps := fun hmem ↦
      absurd (hT.below s hmem) (not_lt.2 (hrid ▸ hfresh))
    simp only [mainStep] at h
    split at h
    next iteration pc =>
      rw [_maybe_replan] at h
      split at h
      · cases h
      split at h
      · have hcontrol : Control o (endPhase settings o m .validate) :=
          control_endPhase (.refl o) main rfl rfl (by decide)
        rw [← Option.some.inj h, hcontrol.steps] at hs
        exact absurd hs hstored
      · obtain ⟨tasks, agents, rfl⟩ := Option.map_eq_some_iff.1 h
        rcases List.mem_append.1 hs with hs | hs
        · exact absurd hs hstored
        · obtain ⟨q, hq, i, -, rfl⟩ := mem_numbered hs
          obtain ⟨gap, -, rfl⟩ := List.mem_map.1 hq
          rfl
    next => cases h
  · have hdecided : s ∈ (o.decideStep s.id .approved fun d ↦
        { d with approved_by := some user_id, approval_note := some note }).steps := by
      rw [← Option.some.inj h, approve_step, if_pos hheld] at hs
      dsimp only at hs
      split at hs
      · rw [(control_start_approved_steps _ _).steps] at hs
        exact hs
      · rw [(control_resume_if_parked _).steps] at hs
        exact hs
    exact status_decided hdecided rfl

omit u in
/-- Policy judges what is planned. -/
theorem planned_of_review (graph : settings.use_langgraph = true) (nodup : (o.steps.map (·.id)).Nodup)
    {s : PlanStep} (hs : s ∈ o.steps) (review : s.id ∈ underReview settings o m) :
    s.status = .planned := by
  rw [underReview, if_pos graph] at review
  obtain ⟨r, hr, hid⟩ := List.mem_map.1 review
  have hstatus := List.of_mem_filter hr
  rw [← List.inj_on_of_nodup_map nodup (List.mem_of_mem_filter hr) hs hid]
  exact beq_iff_eq.1 hstatus

/-- **The step lemma.** -/
theorem Tallied.step (hT : o.Tallied completed) (graph : settings.use_langgraph = true) {e : EngineEvent}
    (idle : ∀ elects_stop, e = .main (.coordinate elects_stop) → ∀ id, o.claims id = 0)
    (h : Orchestrator.step registry record settings o e = some o') :
    o'.Tallied (completed ++ o.completions e) := by
  obtain ⟨hnodup, hbelow, hnext⟩ := hT.rows h
  obtain ⟨hclaims, hrange⟩ := flow_of_step hT.range hT.nodup h
  have huntaken : ∀ {id}, id ∉ Orchestrator.taken registry record settings o e →
      o.claims id + completed.count id = 0 →
        o'.claims id + (completed ++ o.completions e).count id = 0 := by
    intro id htaken hzero
    have hle := hclaims id
    rw [List.count_eq_zero.2 htaken] at hle
    rw [List.count_append]
    omega
  refine ⟨hnodup, hbelow, hrange, fun id ↦ ?_, fun id hid ↦ ?_, fun s hs hstatus ↦ ?_, fun s hs hstatus ↦ ?_⟩
  · have hle := hclaims id
    rw [List.count_append]
    by_cases htaken : id ∈ Orchestrator.taken registry record settings o e
    · obtain ⟨hzero, hone⟩ := hT.taken graph idle htaken
      omega
    · have hone := hT.once id
      rw [List.count_eq_zero.2 htaken] at hle
      omega
  · refine huntaken (fun htaken ↦ ?_) (hT.fresh id (by omega))
    rcases taken_cases graph htaken with ⟨-, s, hs, rfl, -⟩ | ⟨-, s, hs, rfl, -⟩ | ⟨-, hheld⟩
    · exact absurd (hT.below s hs) (by omega)
    · have hlt := ((inserted_ids registry record settings o e).2 s hs).2
      omega
    · rw [Orchestrator.held, Option.any_eq_true] at hheld
      obtain ⟨s, hs, -⟩ := hheld
      have hfound := List.find?_some hs
      have hsid : s.id = id := beq_iff_eq.1 hfound
      have hlt := hT.below s (List.mem_of_find?_eq_some hs)
      omega
  · have htaken : s.id ∉ Orchestrator.taken registry record settings o e := by
      intro htaken
      have happroved := hT.approved_of_taken graph h hs htaken
      rw [happroved] at hstatus
      rcases hstatus with hstatus | hstatus <;> cases hstatus
    refine huntaken htaken ?_
    cases origin_of_step h hs with
    | kept mem => exact hT.waiting s mem hstatus
    | planned main pc fresh status => exact hT.fresh s.id fresh
    | gap fresh status => exact hT.fresh s.id fresh
    | @judged r m policy mem main pc review =>
      rw [(judge_same registry (_make_guard record settings) settings o._declaratives r).1]
      exact hT.waiting r mem (Or.inl (planned_of_review graph hT.nodup mem review))
    | @settled r t error mem task state id =>
      cases error <;> rcases hstatus with hstatus | hstatus <;> cases hstatus
    | skipped mem | approved mem operator held | denied mem operator held =>
      rcases hstatus with hstatus | hstatus <;> cases hstatus
  · have hcompleted : s.id ∉ o.completions e := by
      intro hid
      have hdone := done_of_completed hid h hs rfl
      rw [hstatus] at hdone
      cases hdone
    rw [List.count_append, List.count_eq_zero.2 hcompleted, Nat.add_zero]
    cases origin_of_step h hs with
    | kept mem => exact hT.approved s mem hstatus
    | planned main pc fresh status =>
      have hzero := hT.fresh s.id fresh
      omega
    | gap fresh status =>
      have hzero := hT.fresh s.id fresh
      omega
    | @judged r m policy mem main pc review =>
      have hzero := hT.waiting r mem (Or.inl (planned_of_review graph hT.nodup mem review))
      rw [(judge_same registry (_make_guard record settings) settings o._declaratives r).1]
      omega
    | @settled r t error mem task state id => cases error <;> cases hstatus
    | skipped mem | denied mem operator held => cases hstatus
    | @approved r user_id note decision mem operator held =>
      have hzero := hT.waiting r mem (Or.inr (status_of_held hT.nodup mem held))
      show completed.count r.id = 0
      omega

end

end Orchestrator

end Sentrik
