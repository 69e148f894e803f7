import Sentrik.Orchestration.Parked
import Sentrik.Orchestration.TestedPairs

/-!
# An approved step and who takes it up

A step that an operator approves has to come into the hands of an agent. It can be on its way there in
two places: an execution of approved steps has it (`ExecutionTakes`), or the run is still before its
execution and will look at it (`Keeps`). The inline driver takes up what is approved during its bounded
wait and nothing later; the graph reads the approved steps when it begins to execute.

`InHands` says that whatever waits is in one of these places. The lemmas here say what each step of the
run and of an execution does with a step in its hands.
-/

namespace Sentrik

/-- Whether the node is not past execution. -/
def Node.early : Node → Bool
  | .authorize | .discover | .plan | .policy | .execute => true
  | .validate | .score | .report => false

/-- Whether the task of the run is at its end. -/
def MainPc.ends : MainPc → Bool
  | .cancelling | .leaving => true
  | _ => false

/-- Whether the run will still take up the step if it is approved now. The graph reads the approved
steps when it begins to execute; the inline driver executes what its policy phase has returned. -/
def Main.takes (settings : Settings) (m : Main) (id : ℕ) : Bool :=
  match m.pc with
  | .entering n | .inside n =>
    if settings.use_langgraph then n.early else n == .execute && (m.allowed.map (·.id)).contains id
  | .awaiting approved pending => (approved ++ pending).contains id
  | .loggingIn steps => (steps.map (·.id)).contains id
  | _ => false

/-- Whether the execution has the step, or will read it. -/
def Execution.takes (x : Execution) (id : ℕ) : Bool :=
  match x.pc with
  | .queued => x.step_ids.contains id
  | .loggingIn steps => (steps.map (·.id)).contains id
  | _ => false

namespace Orchestrator

/-- The step was given to an agent. -/
def Handed (o : Orchestrator) (id : ℕ) : Prop := ∃ t ∈ o.tasks, t.step.id = id

instance (o : Orchestrator) (id : ℕ) : Decidable (o.Handed id) :=
  inferInstanceAs (Decidable (∃ t ∈ o.tasks, _))

/-- An operator has approved the step, and no agent was given it. -/
def Waits (o : Orchestrator) (s : PlanStep) : Prop :=
  s.status = .approved ∧ s.id ∈ o.approvals ∧ ¬o.Handed s.id

instance (o : Orchestrator) (s : PlanStep) : Decidable (o.Waits s) := inferInstanceAs (Decidable (_ ∧ _))

/-- An execution of approved steps has the step. -/
def ExecutionTakes (o : Orchestrator) (id : ℕ) : Prop := ∃ x ∈ o.executions, x.takes id = true

instance (o : Orchestrator) (id : ℕ) : Decidable (o.ExecutionTakes id) :=
  inferInstanceAs (Decidable (∃ x ∈ o.executions, _))

/-- The run can still take up the step: the task of the run, or the one that will be launched. -/
structure Keeps (settings : Settings) (o : Orchestrator) (id : ℕ) : Prop where
  early : ∀ n ∈ o.thread, n.early = true
  unfinished : o.assessment.state ≠ .COMPLETED
  main : ∀ m ∈ o.main, m.takes settings id = true ∨ m.pc.ends = true

theorem keeps_iff {settings : Settings} {o : Orchestrator} {id : ℕ} :
    Keeps settings o id ↔ (∀ n ∈ o.thread, n.early = true) ∧ o.assessment.state ≠ .COMPLETED ∧
      ∀ m ∈ o.main, m.takes settings id = true ∨ m.pc.ends = true :=
  ⟨fun h ↦ ⟨h.early, h.unfinished, h.main⟩, fun h ↦ ⟨h.1, h.2.1, h.2.2⟩⟩

instance (settings : Settings) (o : Orchestrator) (id : ℕ) : Decidable (Keeps settings o id) :=
  decidable_of_iff _ keeps_iff.symm

/-- **The invariant**: whatever waits is in hands. -/
def InHands (settings : Settings) (o : Orchestrator) : Prop :=
  ∀ s ∈ o.steps, o.Waits s → o.ExecutionTakes s.id ∨ Keeps settings o s.id

variable {registry : _Registry} {record : AuthorizationRecord} {settings : Settings}
variable {o o' : Orchestrator} {m m' : Main} {id : ℕ}

/-! ### The run -/

theorem Keeps.of_sameRun (hK : Keeps settings o id) (same : SameRun o o') : Keeps settings o' id where
  early := same.thread ▸ hK.early
  unfinished := same.state ▸ hK.unfinished
  main := same.main ▸ hK.main

/-- The task of the run is at a place from which it takes the step up, or at its end. -/
theorem Keeps.of_main (early : ∀ n ∈ o'.thread, n.early = true)
    (unfinished : o'.assessment.state ≠ .COMPLETED) (main' : o'.main = some m')
    (takes : m'.takes settings id = true ∨ m'.pc.ends = true) : Keeps settings o' id := by
  refine ⟨early, unfinished, fun m hm ↦ ?_⟩
  rw [← Option.some.inj (main'.symm.trans hm)]
  exact takes

theorem Keeps.of_idle (early : ∀ n ∈ o'.thread, n.early = true)
    (unfinished : o'.assessment.state ≠ .COMPLETED) (main' : o'.main = none) :
    Keeps settings o' id :=
  ⟨early, unfinished, fun m hm ↦ by rw [main'] at hm; cases hm⟩

/-- The graph goes to a node that is not past execution. -/
theorem keeps_goto (graph : settings.use_langgraph = true)
    (unfinished : o.assessment.state ≠ .COMPLETED) (m : Main) {n : Node} (hn : n.early = true) :
    Keeps settings (goto settings o m n) id := by
  rw [goto, if_pos graph]
  refine .of_main (fun n' hn' ↦ ?_) unfinished rfl (Or.inl ?_)
  · rw [← Option.some.inj hn']
    exact hn
  · rw [Main.takes]
    dsimp only
    rw [if_pos graph]
    exact hn

theorem keeps_endPhase (graph : settings.use_langgraph = true)
    (unfinished : o.assessment.state ≠ .COMPLETED) (m : Main) {n : Node} (hn : n.early = true) :
    Keeps settings (endPhase settings o m n) id := by
  rw [endPhase, if_pos graph]
  refine keeps_goto graph ?_ _ hn
  rw [closeMain]
  cases m.client <;> exact unfinished

/-- A run of the graph that is launched will take up the step. -/
theorem Keeps.launch (hK : Keeps settings o id) (graph : o.main = none → settings.use_langgraph = true) :
    Keeps settings (start_assessment settings o) id := by
  rw [start_assessment]
  split
  · exact hK
  next hidle =>
    have graph := graph (by simpa using hidle)
    rw [if_pos graph]
    refine keeps_goto graph hK.unfinished _ ?_
    cases hthread : o.thread with
    | none => rfl
    | some n => exact hK.early n hthread

/-- At the entrance of a phase. -/
theorem Keeps.enter (hK : Keeps settings o id) {n : Node} (pc : m.pc = .entering n)
    (takes : m.takes settings id = true) (now : ℤ) :
    Keeps settings (enter record settings o m n now) id := by
  rw [Main.takes, pc] at takes
  dsimp only at takes
  have hinside : ∀ m' : Main, m'.pc = .inside n → m'.allowed = m.allowed →
      m'.takes settings id = true := by
    intro m' hpc hallowed
    rw [Main.takes, hpc, hallowed]
    exact takes
  unfold Orchestrator.enter
  dsimp only
  split
  · exact .of_main hK.early hK.unfinished rfl (Or.inr rfl)
  have hstate : ∀ state : AssessmentState, state ≠ .COMPLETED → ∀ {o' : Orchestrator} {m' : Main},
      o'.thread = o.thread → o'.assessment.state = state → o'.main = some m' → m'.pc = .inside n →
        m'.allowed = m.allowed → Keeps settings o' id := by
    intro state hne o' m' hthread hst main' hpc hallowed
    exact .of_main (hthread ▸ hK.early) (hst ▸ hne) main' (Or.inl (hinside m' hpc hallowed))
  cases n with
  | authorize =>
    dsimp only
    split
    · exact .of_idle (fun n hn ↦ by cases hn) (fun h ↦ by cases h) rfl
    · -- only the graph takes steps up from here
      have graph : settings.use_langgraph = true := by
        by_contra hinline
        rw [if_neg hinline] at takes
        cases takes
      refine keeps_goto graph ?_ _ rfl
      exact fun h ↦ by cases h
  | discover =>
    dsimp only
    split
    next hdenied =>
      rw [if_neg hdenied.1] at takes
      cases takes
    next => exact hstate .DISCOVERING (by decide) rfl rfl rfl rfl rfl
  | plan => exact hstate .PLANNING (by decide) rfl rfl rfl rfl rfl
  | policy => exact hstate .POLICY_CHECK (by decide) rfl rfl rfl rfl rfl
  | execute =>
    dsimp only
    split
    · exact hstate .EXECUTING (by decide) rfl rfl rfl rfl rfl
    · exact hstate .EXECUTING (by decide) rfl rfl rfl rfl rfl
  | validate =>
    dsimp only
    split
    · exact hstate .VALIDATING (by decide) rfl rfl rfl rfl rfl
    · exact hstate .VALIDATING (by decide) rfl rfl rfl rfl rfl
  | score => exact hstate .SCORING (by decide) rfl rfl rfl rfl rfl
  | report => exact hstate .REPORTING (by decide) rfl rfl rfl rfl rfl

/-- Copies that resolve to a check come to an agent. -/
theorem agentsFor_handed {declaratives : List DeclarativeCheck} {client : ℕ} {steps : List PlanStep}
    {tasks : List AgentTask} (agents : agentsFor registry o declaratives client steps = some tasks)
    {r : PlanStep} (hr : r ∈ steps) {c : Check}
    (hresolve : _resolve_check registry r.check_name r.check_class declaratives = some c) :
    ∃ t ∈ tasks, t.step = r := by
  induction steps generalizing tasks with
  | nil => cases hr
  | cons s rest ih =>
    rw [agentsFor] at agents
    split at agents
    next e tasks' hendpoint hrest =>
      split at agents
      next hnone =>
        obtain rfl := Option.some.inj agents
        rcases List.mem_cons.1 hr with rfl | hr
        · rw [hnone] at hresolve
          cases hresolve
        · exact ih hrest hr
      next check hcheck =>
        obtain rfl := Option.some.inj agents
        rcases List.mem_cons.1 hr with rfl | hr
        · exact ⟨_, List.mem_cons_self, rfl⟩
        · obtain ⟨t, ht, hstep⟩ := ih hrest hr
          exact ⟨t, List.mem_cons_of_mem _ ht, hstep⟩
    next => cases agents

/-- A round of the wait collects an approved step, or goes on with it. -/
theorem Keeps.poll (hK : Keeps settings o id) {approved pending : List ℕ}
    (pc : m.pc = .awaiting approved pending) (takes : m.takes settings id = true) {s : PlanStep}
    (hs : s ∈ o.steps) (hid : s.id = id) (hstatus : s.status = .approved) (expired : Bool) :
    Keeps settings (_await_step_approvals settings o m approved pending expired) id := by
  rw [Main.takes, pc] at takes
  have hcollected : id ∈ approved ++ ((o._reload_steps pending).filter (·.status == .approved)).map
      (·.id) := by
    rcases List.mem_append.1 (List.contains_iff_mem.1 takes) with h | h
    · exact List.mem_append_left _ h
    · refine List.mem_append_right _ (List.mem_map.2 ⟨s, List.mem_filter.2 ⟨?_, ?_⟩, hid⟩)
      · exact List.mem_filter.2 ⟨hs, List.contains_iff_mem.2 (hid ▸ h)⟩
      · rw [hstatus]
        rfl
  unfold _await_step_approvals
  dsimp only
  split
  · by_cases graph : settings.use_langgraph = true
    · exact keeps_goto graph hK.unfinished _ rfl
    · rw [goto, if_neg graph]
      refine .of_main (fun n hn ↦ by cases hn) hK.unfinished rfl (Or.inl ?_)
      rw [Main.takes]
      dsimp only
      rw [if_neg graph]
      -- the row of the step is among those the wait returns
      have hrow : s ∈ o._reload_steps (approved ++
          ((o._reload_steps pending).filter (·.status == .approved)).map (·.id)) :=
        List.mem_filter.2 ⟨hs, List.contains_iff_mem.2 (hid ▸ hcollected)⟩
      have hmem : id ∈ (o._reload_steps (approved ++
          ((o._reload_steps pending).filter (·.status == .approved)).map (·.id))).map (·.id) :=
        List.mem_map.2 ⟨s, hrow, hid⟩
      simpa using hmem
  · refine .of_main hK.early hK.unfinished rfl (Or.inl ?_)
    rw [Main.takes]
    exact List.contains_iff_mem.2 (List.mem_append_left _ hcollected)

/-- The execution that makes a step, or one that stays as it is, takes the step up. -/
theorem ExecutionTakes.of_set (hT : o.ExecutionTakes id) {j : ℕ} {x x' : Execution}
    (execution : o.executions[j]? = some x) (executions : o'.executions = o.executions.set j x') :
    x.takes id = true ∨ o'.ExecutionTakes id := by
  obtain ⟨y, hy, htakes⟩ := hT
  obtain ⟨k, hk, rfl⟩ := List.getElem_of_mem hy
  by_cases hjk : j = k
  · subst hjk
    obtain ⟨-, rfl⟩ := List.getElem?_eq_some_iff.1 execution
    exact Or.inl htakes
  · refine Or.inr ⟨o.executions[k], ?_, htakes⟩
    rw [executions]
    exact List.mem_iff_getElem.2 ⟨k, by simpa using hk, List.getElem_set_ne hjk _⟩

theorem ExecutionTakes.of_self {j : ℕ} {x x' : Execution} (execution : o.executions[j]? = some x)
    (executions : o'.executions = o.executions.set j x') (takes : x'.takes id = true) :
    o'.ExecutionTakes id := by
  obtain ⟨hj, -⟩ := List.getElem?_eq_some_iff.1 execution
  exact ⟨x', executions ▸ List.mem_set hj x', takes⟩

/-- An execution that begins keeps the steps that are approved, or skips them. -/
theorem takes_begin {j : ℕ} {x : Execution} (execution : o.executions[j]? = some x)
    (pc : x.pc = .queued) (takes : x.takes id = true) {s : PlanStep} (hs : s ∈ o.steps)
    (hid : s.id = id) (hstatus : s.status = .approved) (now : ℤ) :
    (execute_approved_steps record settings o j x now).ExecutionTakes id ∨
      ∀ s' ∈ (execute_approved_steps record settings o j x now).steps, s'.id = id →
        s'.status ≠ .approved := by
  rw [Execution.takes, pc] at takes
  have hmem : s ∈ (o._reload_steps x.step_ids).filter (·.status == .approved) := by
    refine List.mem_filter.2 ⟨List.mem_filter.2 ⟨hs, hid ▸ takes⟩, ?_⟩
    rw [hstatus]
    rfl
  unfold execute_approved_steps
  dsimp only
  rw [if_neg (List.ne_nil_of_mem hmem)]
  split
  · right
    intro s' hs' hid'
    obtain ⟨r, hr, rfl⟩ := List.mem_map.1 hs'
    split
    · exact fun h ↦ by cases h
    next hnot =>
      rw [if_neg hnot] at hid'
      exact absurd (List.mem_map.2 ⟨s, hmem, hid.trans hid'.symm⟩) hnot
  · left
    refine .of_self (o := o) execution rfl ?_
    rw [Execution.takes]
    exact List.contains_iff_mem.2 (List.mem_map.2 ⟨s, hmem, hid⟩)

/-- What is held at the moment is stored under its id. -/
theorem exists_of_held (h : o.held id = true) :
    ∃ s ∈ o.steps, s.id = id ∧ s.status = .awaiting_approval := by
  rw [held, Option.any_eq_true] at h
  obtain ⟨s, hs, hst⟩ := h
  have hid := List.find?_some hs
  exact ⟨s, List.mem_of_find?_eq_some hs, beq_iff_eq.1 hid, beq_iff_eq.1 hst⟩

/-- Launching a run, when none is live, loses nothing in the graph, or if nothing waits. -/
theorem hands_launch (hands : o.ExecutionTakes id ∨ Keeps settings o id)
    (hlaunch : settings.use_langgraph = false → o.main = none → o.ExecutionTakes id) :
    (start_assessment settings o).ExecutionTakes id ∨ Keeps settings (start_assessment settings o) id := by
  have hexecutions : (start_assessment settings o).executions = o.executions := by
    rw [start_assessment]
    split <;> rfl
  have hsame : o.ExecutionTakes id → (start_assessment settings o).ExecutionTakes id := by
    rintro ⟨x, hx, htakes⟩
    exact ⟨x, hexecutions ▸ hx, htakes⟩
  rcases hands with hT | hK
  · exact Or.inl (hsame hT)
  · by_cases graph : o.main = none → settings.use_langgraph = true
    · exact Or.inr (hK.launch graph)
    · obtain ⟨idle, inline⟩ := Classical.not_imp.1 graph
      exact Or.inl (hsame (hlaunch (by simpa using inline) idle))

/-- An agent leaves the executions alone. -/
theorem executions_taskStep {i : ℕ} {t : AgentTask} {e : TaskEvent}
    (h : taskStep settings o i t e = some o') : o'.executions = o.executions := by
  cases e with
  | begin noticed =>
    simp only [taskStep] at h
    split at h
    · exact Option.some.inj h ▸ rfl
    · cases h
  | act invoke =>
    simp only [taskStep] at h
    split at h
    · split at h
      · rw [← Option.some.inj h]
        split <;> rfl
      · cases h
    · cases h
  | send =>
    simp only [taskStep] at h
    split at h
    · split at h
      · exact Option.some.inj h ▸ rfl
      · cases h
    · cases h
  | receive =>
    simp only [taskStep] at h
    split at h
    · split at h
      · cases h
      · exact Option.some.inj h ▸ rfl
    · cases h
  | finish error =>
    simp only [taskStep] at h
    split at h
    · exact Option.some.inj h ▸ rfl
    · cases h

theorem endPhase_executions (o : Orchestrator) (m : Main) (n : Node) :
    (endPhase settings o m n).executions = o.executions := by
  rw [endPhase]
  split
  · exact closeMain_executions o m
  · rfl

variable [u : UnicodeTables]

/-- **A step of the run** keeps an approved step in its hands, or gives it to an agent. -/
theorem Keeps.mainStep (hK : Keeps settings o id) (main : o.main = some m) {s : PlanStep}
    (hs : s ∈ o.steps) (hid : s.id = id) (hstatus : s.status = .approved)
    (hresolve : ∀ r ∈ m.pc.copies, r.id = id →
      ∃ c, _resolve_check registry r.check_name r.check_class o._declaratives = some c)
    {e : MainEvent} (he : e ≠ .coordinate true)
    (h : mainStep registry record settings o m e = some o') : o'.Handed id ∨ Keeps settings o' id := by
  have hat := hK.main m main
  -- inside a phase before execution only the graph takes steps up
  have hgraph : ∀ {n}, m.pc = .inside n → n ≠ .execute → settings.use_langgraph = true := by
    intro n pc hn
    rcases hat with takes | ends
    · by_contra hinline
      rw [Main.takes, pc] at takes
      dsimp only at takes
      rw [if_neg hinline] at takes
      cases n <;> first | exact hn rfl | cases takes
    · rw [pc] at ends
      cases ends
  cases e with
  | enter now =>
    simp only [Orchestrator.mainStep] at h
    split at h
    next n pc =>
      rw [← Option.some.inj h]
      have takes := hat.resolve_right fun ends ↦ by rw [pc] at ends; cases ends
      exact Or.inr (hK.enter pc takes now)
    next => cases h
  | discovered found =>
    simp only [Orchestrator.mainStep] at h
    split at h
    next pc =>
      rw [← Option.some.inj h]
      have hstate := (sameRun_addEndpoints o found).state
      exact Or.inr (keeps_endPhase (hgraph pc (by decide)) (fun h ↦ hK.unfinished (hstate.symm.trans h))
        _ rfl)
    next => cases h
  | plan multi strategy order =>
    simp only [Orchestrator.mainStep] at h
    split at h
    next pc =>
      rw [← Option.some.inj h]
      unfold _phase_planning
      refine Or.inr (keeps_goto (hgraph pc (by decide)) ?_ _ rfl)
      show o.freeze.assessment.state ≠ .COMPLETED
      rw [freeze_state]
      exact hK.unfinished
    next => cases h
  | policy =>
    simp only [Orchestrator.mainStep] at h
    split at h
    next pc =>
      rw [← Option.some.inj h]
      have graph := hgraph pc (by decide)
      have hjudged : SameRun o (judgeAll registry record settings o (underReview settings o m)) :=
        ⟨rfl, rfl, rfl, rfl⟩
      have hfrozen := hjudged.trans (sameRun_freeze _)
      have hstate : (judgeAll registry record settings o (underReview settings o m)).freeze.assessment.state
          ≠ .COMPLETED := fun h ↦ hK.unfinished (hfrozen.state.symm.trans h)
      unfold _phase_policy
      dsimp only
      rw [if_pos graph]
      right
      split
      · have hgo : Keeps settings (goto settings _ m .execute) id := keeps_goto graph hstate m rfl
        exact ⟨hgo.early, hgo.unfinished, hgo.main⟩
      · exact .of_main (fun n hn ↦ hK.early n (hfrozen.thread ▸ hn)) hstate rfl (Or.inr rfl)
    next => cases h
  | poll expired =>
    simp only [Orchestrator.mainStep] at h
    split at h
    next approved pending pc =>
      rw [← Option.some.inj h]
      have takes := hat.resolve_right fun ends ↦ by rw [pc] at ends; cases ends
      exact Or.inr (hK.poll pc takes hs hid hstatus expired)
    next => cases h
  | coordinate elects_stop =>
    obtain rfl : elects_stop = false := by
      cases elects_stop with
      | false => rfl
      | true => exact absurd rfl he
    simp only [Orchestrator.mainStep] at h
    split at h
    next pc =>
      rw [← Option.some.inj h]
      have takes := hat.resolve_right fun ends ↦ by rw [pc] at ends; cases ends
      rw [Main.takes, pc] at takes
      have hmem : id ∈ (toExecute settings o m).map (·.id) := by
        rw [toExecute]
        by_cases graph : settings.use_langgraph = true
        · rw [if_pos graph]
          refine List.mem_map.2 ⟨s, List.mem_filter.2 ⟨hs, ?_⟩, hid⟩
          rw [hstatus]
          rfl
        · rw [if_neg graph]
          dsimp only at takes
          rw [if_neg graph] at takes
          simpa using takes
      have hsome : toExecute settings o m ≠ [] := fun hnil ↦ by
        rw [hnil] at hmem
        cases hmem
      unfold coordinate
      dsimp only
      rw [if_neg (by simp [hsome])]
      exact Or.inr (.of_main hK.early hK.unfinished rfl (Or.inl (List.contains_iff_mem.2 hmem)))
    next => cases h
  | send =>
    simp only [Orchestrator.mainStep] at h
    split at h
    · exact Or.inr (Option.some.inj h ▸ hK.of_sameRun ⟨rfl, rfl, rfl, rfl⟩)
    · cases h
  | dispatch =>
    simp only [Orchestrator.mainStep] at h
    split at h
    next steps pc =>
      obtain ⟨tasks, agents, rfl⟩ := Option.map_eq_some_iff.1 h
      have takes := hat.resolve_right fun ends ↦ by rw [pc] at ends; cases ends
      rw [Main.takes, pc] at takes
      obtain ⟨r, hr, hrid⟩ := List.mem_map.1 (List.contains_iff_mem.1 takes)
      obtain ⟨c, hc⟩ := hresolve r (by rw [pc]; exact hr) hrid
      obtain ⟨t, ht, hstep⟩ := agentsFor_handed agents hr hc
      exact Or.inl ⟨t, List.mem_append_right _ ht, hstep ▸ hrid⟩
    next => cases h
  | raise error =>
    simp only [Orchestrator.mainStep] at h
    split at h
    · cases h
    · rw [← Option.some.inj h, Orchestrator.raise]
      right
      split
      · exact .of_idle (fun n hn ↦ by cases hn) (fun h ↦ by cases h) rfl
      · exact .of_main hK.early (fun h ↦ by cases h) rfl (Or.inr rfl)
  | cancelled =>
    simp only [Orchestrator.mainStep] at h
    split at h
    · rw [← Option.some.inj h]
      exact Or.inr (.of_main (fun n hn ↦ by cases hn) (fun h ↦ by cases h) rfl (Or.inr rfl))
    · cases h
  | leave =>
    simp only [Orchestrator.mainStep] at h
    split at h
    · rw [← Option.some.inj h]
      obtain ⟨hthread, hstate⟩ : (o.closeMain m).thread = o.thread ∧
          (o.closeMain m).assessment = o.assessment := by
        rw [closeMain]
        cases m.client <;> exact ⟨rfl, rfl⟩
      refine Or.inr (.of_idle (fun n hn ↦ hK.early n (hthread ▸ hn)) (fun h ↦ hK.unfinished ?_) rfl)
      rw [← hstate]
      exact h
    · cases h
  -- the other steps are made at places from which nothing is taken up
  | deliver i noticed =>
    simp only [Orchestrator.mainStep] at h
    split at h
    next pc => rcases hat with hat | hat <;> simp [Main.takes, MainPc.ends, pc] at hat
    next pc => rcases hat with hat | hat <;> simp [Main.takes, MainPc.ends, pc] at hat
    next => cases h
  | drained =>
    simp only [Orchestrator.mainStep] at h
    split at h
    next pc => rcases hat with hat | hat <;> simp [Main.takes, MainPc.ends, pc] at hat
    next pc => rcases hat with hat | hat <;> simp [Main.takes, MainPc.ends, pc] at hat
    next => cases h
  | retry noticed =>
    simp only [Orchestrator.mainStep] at h
    split at h
    next pc => rcases hat with hat | hat <;> simp [Main.takes, MainPc.ends, pc] at hat
    next => cases h
  | retried =>
    simp only [Orchestrator.mainStep] at h
    split at h
    next pc => rcases hat with hat | hat <;> simp [Main.takes, MainPc.ends, pc] at hat
    next => cases h
  | replan answer =>
    simp only [Orchestrator.mainStep] at h
    split at h
    next pc => rcases hat with hat | hat <;> simp [Main.takes, MainPc.ends, pc] at hat
    next => cases h
  | validated | scored | reported =>
    simp only [Orchestrator.mainStep] at h
    split at h
    next pc =>
      rcases hat with hat | hat
      · simp [Main.takes, pc, Node.early] at hat
      · simp [MainPc.ends, pc] at hat
    next => cases h

/-! ### The executions -/

/-- The steps of the run leave the executions alone. -/
theorem executions_mainStep {e : MainEvent} (h : mainStep registry record settings o m e = some o') :
    o'.executions = o.executions := by
  cases e with
  | enter now =>
    simp only [mainStep] at h
    split at h
    next n pc =>
      rw [← Option.some.inj h]
      unfold enter
      dsimp only
      split
      · rfl
      cases n with
      | authorize | discover | execute | validate =>
        dsimp only
        split <;> rfl
      | plan | policy | score | report => rfl
    next => cases h
  | discovered found =>
    simp only [mainStep] at h
    split at h
    · rw [← Option.some.inj h]
      exact (endPhase_executions _ _ _).trans (sameData_addEndpoints o found).2.2
    · cases h
  | plan multi strategy order =>
    simp only [mainStep] at h
    split at h
    · rw [← Option.some.inj h, _phase_planning, freeze_eq]
      rfl
    · cases h
  | policy =>
    simp only [mainStep] at h
    split at h
    · rw [← Option.some.inj h]
      have hfrozen : (judgeAll registry record settings o (underReview settings o m)).freeze.executions =
          o.executions := by
        rw [freeze_eq]
        rfl
      rw [← hfrozen]
      unfold _phase_policy
      dsimp only
      split_ifs <;> rfl
    · cases h
  | poll expired =>
    simp only [mainStep] at h
    split at h
    · rw [← Option.some.inj h]
      unfold _await_step_approvals
      dsimp only
      split <;> rfl
    · cases h
  | coordinate elects_stop =>
    simp only [mainStep] at h
    split at h
    · rw [← Option.some.inj h]
      unfold coordinate
      dsimp only
      split
      · exact endPhase_executions _ _ _
      · rfl
    · cases h
  | dispatch =>
    simp only [mainStep] at h
    split at h
    · obtain ⟨tasks, agents, rfl⟩ := Option.map_eq_some_iff.1 h
      rw [freeze_eq]
      rfl
    · cases h
  | deliver i noticed =>
    simp only [mainStep] at h
    split at h
    · obtain ⟨⟨t, error⟩, result, rfl⟩ := Option.map_eq_some_iff.1 h
      dsimp only
      split
      · rw [endPhase_executions]
        cases m.client <;> rfl
      · rfl
    · obtain ⟨⟨t, error⟩, result, rfl⟩ := Option.map_eq_some_iff.1 h
      dsimp only
      split <;> rfl
    · cases h
  | drained =>
    simp only [mainStep] at h
    split at h
    · split at h
      · exact Option.some.inj h ▸ rfl
      · cases h
    · split at h
      · exact Option.some.inj h ▸ rfl
      · cases h
    · cases h
  | retry noticed =>
    simp only [mainStep] at h
    split at h
    · rw [retry.eq_def] at h
      split at h
      · obtain ⟨t, task, rfl⟩ := Option.map_eq_some_iff.1 h
        rfl
      · split at h
        · exact Option.some.inj h ▸ rfl
        · exact Option.some.inj h ▸ rfl
    · cases h
  | retried =>
    simp only [mainStep] at h
    split at h
    · rw [retried] at h
      split at h
      · split at h
        · exact Option.some.inj h ▸ rfl
        · cases h
      · cases h
    · cases h
  | replan answer =>
    simp only [mainStep] at h
    split at h
    · rw [_maybe_replan] at h
      split at h
      · cases h
      split at h
      · exact Option.some.inj h ▸ endPhase_executions _ _ _
      · obtain ⟨tasks, agents, rfl⟩ := Option.map_eq_some_iff.1 h
        rfl
    · cases h
  | validated =>
    simp only [mainStep] at h
    split at h
    · exact Option.some.inj h ▸ endPhase_executions _ _ _
    · cases h
  | scored =>
    simp only [mainStep] at h
    split at h
    · rw [← Option.some.inj h]
      obtain ⟨coverage, heq⟩ := _phase_score_eq registry record o
      rw [heq]
      rfl
    · cases h
  | raise error =>
    simp only [mainStep] at h
    split at h
    · cases h
    · rw [← Option.some.inj h, raise]
      split
      · exact closeMain_executions o m
      · rfl
  | leave =>
    simp only [mainStep] at h
    split at h
    · exact Option.some.inj h ▸ closeMain_executions o m
    · cases h
  | send | reported | cancelled =>
    simp only [mainStep] at h
    split at h
    · exact Option.some.inj h ▸ rfl
    · cases h

/-- A step of an execution changes its place and its client. -/
theorem executions_executionStep {j : ℕ} {x : Execution} {e : ExecutionEvent}
    (execution : o.executions[j]? = some x)
    (h : executionStep registry record settings o j x e = some o') :
    ∃ pc client, o'.executions = o.executions.set j { x with pc, client } := by
  have hsame : o.executions = o.executions.set j x := by
    obtain ⟨hj, rfl⟩ := List.getElem?_eq_some_iff.1 execution
    exact (List.set_getElem_self hj).symm
  cases e with
  | begin now =>
    simp only [executionStep] at h
    split at h
    · rw [← Option.some.inj h]
      unfold execute_approved_steps
      dsimp only
      split
      · exact ⟨_, _, rfl⟩
      · split
        · exact ⟨_, _, rfl⟩
        · exact ⟨_, _, rfl⟩
    · cases h
  | send =>
    simp only [executionStep] at h
    split at h
    · exact Option.some.inj h ▸ ⟨x.pc, x.client, hsame⟩
    · cases h
  | dispatch =>
    simp only [executionStep] at h
    split at h
    · obtain ⟨tasks, agents, rfl⟩ := Option.map_eq_some_iff.1 h
      rw [freeze_eq]
      exact ⟨_, _, rfl⟩
    · cases h
  | deliver i noticed =>
    simp only [executionStep] at h
    split at h
    · obtain ⟨⟨t, error⟩, result, rfl⟩ := Option.map_eq_some_iff.1 h
      dsimp only
      split
      · exact ⟨_, _, rfl⟩
      · exact ⟨x.pc, x.client, hsame⟩
    · cases h
  | drained =>
    simp only [executionStep] at h
    split at h
    · split at h
      · exact Option.some.inj h ▸ ⟨_, _, rfl⟩
      · cases h
    · cases h
  | validated =>
    simp only [executionStep] at h
    split at h
    · exact Option.some.inj h ▸ ⟨_, _, rfl⟩
    · cases h
  | scored =>
    simp only [executionStep] at h
    split at h
    · rw [← Option.some.inj h]
      obtain ⟨coverage, heq⟩ := _phase_score_eq registry record o
      rw [heq]
      exact ⟨_, _, rfl⟩
    · cases h
  | raise =>
    simp only [executionStep] at h
    split at h
    · cases h
    · exact Option.some.inj h ▸ ⟨_, _, rfl⟩

/-- **A step of an execution** keeps an approved step in its hands, gives it to an agent or skips it,
unless the execution fails before it has agents. -/
theorem ExecutionTakes.executionStep (hT : o.ExecutionTakes id) {j : ℕ} {x : Execution}
    (execution : o.executions[j]? = some x) {s : PlanStep} (hs : s ∈ o.steps) (hid : s.id = id)
    (hstatus : s.status = .approved)
    (hresolve : ∀ r ∈ x.pc.copies, r.id = id →
      ∃ c, _resolve_check registry r.check_name r.check_class o._declaratives = some c)
    {e : ExecutionEvent} (h : executionStep registry record settings o j x e = some o') :
    o'.Handed id ∨ o'.ExecutionTakes id ∨ (∀ s' ∈ o'.steps, s'.id = id → s'.status ≠ .approved) ∨
      e = .raise ∧ ∃ r ∈ x.pc.copies, r.id = id := by
  obtain ⟨pc', client', hexecutions⟩ := executions_executionStep execution h
  rcases hT.of_set execution hexecutions with takes | hT'
  swap
  · exact Or.inr (Or.inl hT')
  cases e with
  | begin now =>
    simp only [Orchestrator.executionStep] at h
    split at h
    next pc =>
      rw [← Option.some.inj h]
      rcases takes_begin execution pc takes hs hid hstatus now with hT | hskipped
      · exact Or.inr (Or.inl hT)
      · exact Or.inr (Or.inr (Or.inl hskipped))
    next => cases h
  | send =>
    simp only [Orchestrator.executionStep] at h
    split at h
    · exact Option.some.inj h ▸ Or.inr (Or.inl ⟨x, List.mem_of_getElem? execution, takes⟩)
    · cases h
  | dispatch =>
    simp only [Orchestrator.executionStep] at h
    split at h
    next steps pc =>
      obtain ⟨tasks, agents, rfl⟩ := Option.map_eq_some_iff.1 h
      rw [Execution.takes, pc] at takes
      obtain ⟨r, hr, hrid⟩ := List.mem_map.1 (List.contains_iff_mem.1 takes)
      obtain ⟨c, hc⟩ := hresolve r (by rw [pc]; exact hr) hrid
      obtain ⟨t, ht, hstep⟩ := agentsFor_handed agents hr hc
      exact Or.inl ⟨t, List.mem_append_right _ ht, hstep ▸ hrid⟩
    next => cases h
  | raise =>
    simp only [Orchestrator.executionStep] at h
    split at h
    · cases h
    next hpc =>
      refine Or.inr (Or.inr (Or.inr ⟨rfl, ?_⟩))
      rw [Execution.takes] at takes
      split at takes
      next pc => exact absurd (Or.inl pc) hpc
      next steps pc =>
        obtain ⟨r, hr, hrid⟩ := List.mem_map.1 (List.contains_iff_mem.1 takes)
        exact ⟨r, by rw [pc]; exact hr, hrid⟩
      next => cases takes
  -- the other steps are made when the agents have the steps
  | deliver i noticed | drained =>
    simp only [Orchestrator.executionStep] at h
    split at h
    next pool pc => simp [Execution.takes, pc] at takes
    next => cases h
  | validated | scored =>
    simp only [Orchestrator.executionStep] at h
    split at h
    next pc => simp [Execution.takes, pc] at takes
    next => cases h

/-! ### Steps that operators have approved -/

/-- Whatever the step resolves to from now on, it is a check. -/
def Resolves (registry : _Registry) (o : Orchestrator) (s : PlanStep) : Prop :=
  ∀ declaratives, o.DeclsOf declaratives →
    ∃ c, _resolve_check registry s.check_name s.check_class declaratives = some c

/-- What is known of the steps that are held or were approved by an operator. -/
structure Registered (registry : _Registry) (o : Orchestrator) : Prop where
  known : ∀ id ∈ o.approvals, id < o.nextId
  decided : ∀ s ∈ o.steps, s.id ∈ o.approvals → s.status ≠ .awaiting_approval ∧ s.status ≠ .planned
  resolves : ∀ s ∈ o.steps, s.status = .awaiting_approval ∨ s.id ∈ o.approvals →
    Resolves registry o s

theorem frozen_of_move {e : EngineEvent} (h : Move registry record settings o e o')
    (hne : o.assessment.skill_snapshot ≠ []) :
    o'.assessment.skill_snapshot = o.assessment.skill_snapshot := by
  cases h with
  | control control => exact control.snapshot
  | planned main pc =>
    unfold _phase_planning
    dsimp only
    rw [freeze_of_ne_nil hne]
    rfl
  | @judged m main pc =>
    have hfreeze : (judgeAll registry record settings o (underReview settings o m)).freeze =
        judgeAll registry record settings o (underReview settings o m) := freeze_of_ne_nil hne
    unfold _phase_policy
    dsimp only
    rw [hfreeze]
    split_ifs <;> rfl
  | polled main pc =>
    unfold _await_step_approvals
    dsimp only
    split <;> rfl
  | takes main pc => rfl
  | dispatched main pc agents =>
    rw [freeze_of_ne_nil hne]
    rfl
  | settled task state control => exact control.snapshot
  | replanned main pc goes order agents => rfl
  | began execution =>
    unfold execute_approved_steps
    dsimp only
    split_ifs <;> rfl
  | executed execution pc agents =>
    rw [freeze_of_ne_nil hne]
    rfl
  | invoked task control => exact control.snapshot
  | approved held control => exact control.snapshot
  | denied held control => exact control.snapshot
  | cancelled cancels control => exact control.snapshot
  | cleared control => exact control.snapshot

/-- Approvals are recorded by the handler only. -/
theorem approvals_of_move {e : EngineEvent} (h : Move registry record settings o e o') :
    o'.approvals = o.approvals ∨ ∃ step_id, (∃ user_id note, e = .approve step_id user_id note) ∧
      o.held step_id = true ∧ o'.approvals = o.approvals ++ [step_id] ∧
        ∀ s ∈ o'.steps, s.id = step_id → s.status = .approved := by
  cases h with
  | control control => exact Or.inl control.approvals
  | planned main pc =>
    rw [_phase_planning, freeze_eq]
    exact Or.inl rfl
  | @judged m main pc =>
    have hfreeze : (judgeAll registry record settings o (underReview settings o m)).freeze.approvals =
        o.approvals := by
      rw [freeze_eq]
      rfl
    left
    rw [← hfreeze]
    unfold _phase_policy
    dsimp only
    split_ifs <;> rfl
  | polled main pc =>
    unfold _await_step_approvals
    dsimp only
    split <;> exact Or.inl rfl
  | takes main pc => exact Or.inl rfl
  | dispatched main pc agents =>
    rw [freeze_eq]
    exact Or.inl rfl
  | settled task state control => exact Or.inl control.approvals
  | replanned main pc goes order agents => exact Or.inl rfl
  | began execution =>
    unfold execute_approved_steps
    dsimp only
    split_ifs <;> exact Or.inl rfl
  | executed execution pc agents =>
    rw [freeze_eq]
    exact Or.inl rfl
  | invoked task control => exact Or.inl control.approvals
  | approved held control =>
    refine Or.inr ⟨_, ⟨_, _, rfl⟩, held, control.approvals, fun s hs hid ↦ ?_⟩
    rw [control.steps] at hs
    obtain ⟨r, hr, rfl⟩ := List.mem_map.1 hs
    split
    · rfl
    next hne =>
      rw [if_neg hne] at hid
      exact absurd hid hne
  | denied held control => exact Or.inl control.approvals
  | cancelled cancels control => exact Or.inl control.approvals
  | cleared control => exact Or.inl control.approvals

/-- A step that is held afterwards was held, or policy holds it. -/
theorem held_of_move {e : EngineEvent} (h : Move registry record settings o e o') {s : PlanStep}
    (hs : s ∈ o'.steps) (hheld : s.status = .awaiting_approval) :
    s ∈ o.steps ∨ ∃ m, o' = _phase_policy registry record settings o m ∧ ∃ r ∈ o.steps,
      s = judge registry (_make_guard record settings) settings o._declaratives r := by
  cases origin_of_move h hs with
  | kept mem => exact Or.inl mem
  | planned main pc fresh status => rw [status] at hheld; cases hheld
  | gap fresh status => rw [status] at hheld; cases hheld
  | @judged r m policy mem main pc review =>
    subst policy
    cases h with
    | control control => exact Or.inl (control.steps ▸ hs)
    | judged main pc => exact Or.inr ⟨_, rfl, r, mem, rfl⟩
    | settled task state control =>
      left
      rw [control.steps] at hs
      obtain ⟨r', hr', heq⟩ := List.mem_map.1 hs
      split at heq
      next =>
        rw [← heq] at hheld
        cases ‹Bool› <;> cases hheld
      next => exact heq ▸ hr'
    | cancelled cancels control => exact Or.inl (control.steps ▸ hs)
  | @settled r t error mem task state id => cases error <;> cases hheld
  | skipped mem => cases hheld
  | approved mem operator held => cases hheld
  | denied mem operator held => cases hheld

theorem policy_snapshot (o : Orchestrator) (m : Main) :
    (_phase_policy registry record settings o m).assessment.skill_snapshot =
      o.freeze.assessment.skill_snapshot := by
  have hfreeze : (judgeAll registry record settings o (underReview settings o m)).freeze.assessment =
      o.freeze.assessment := by rw [freeze_judgeAll]
  rw [← hfreeze]
  unfold _phase_policy
  dsimp only
  split_ifs <;> rfl

/-- **One move** keeps what is known of held and approved steps. -/
theorem Registered.move {e : EngineEvent} (hR : Registered registry o)
    (hI : Inv registry record settings bookkeeping o) (h : Move registry record settings o e o') :
    Registered registry o' := by
  have hknown : ∀ id ∈ o'.approvals, id < o.nextId := by
    intro id hid
    rcases approvals_of_move h with happ | ⟨step_id, -, held, happ, -⟩
    · exact hR.known id (happ ▸ hid)
    · rw [happ] at hid
      rcases List.mem_append.1 hid with hid | hid
      · exact hR.known id hid
      · obtain ⟨s, hs, hsid, -⟩ := exists_of_held held
        rw [List.mem_singleton.1 hid, ← hsid]
        exact hI.fresh s hs
  have hfrozen : ∀ {s}, Resolves registry o s → Resolves registry o' s :=
    fun hres declaratives hd ↦ hres declaratives (hd.of_frozen (frozen_of_move h))
  refine ⟨fun id hid ↦ (hknown id hid).trans_le (nextId_of_move h), fun s hs hid ↦ ?_,
    fun s hs hwhich ↦ ?_⟩
  · have hnew : s.id ∈ o.approvals ∨ s.status = .approved := by
      rcases approvals_of_move h with happ | ⟨step_id, -, -, happ, happroved⟩
      · exact Or.inl (happ ▸ hid)
      · rw [happ] at hid
        rcases List.mem_append.1 hid with hid | hid
        · exact Or.inl hid
        · exact Or.inr (happroved s hs (List.mem_singleton.1 hid))
    rcases hnew with hold | hstatus
    swap
    · rw [hstatus]
      exact ⟨nofun, nofun⟩
    cases origin_of_move h hs with
    | kept mem => exact hR.decided s mem hold
    | planned main pc fresh status => exact absurd (hR.known _ hold) (not_lt.2 fresh)
    | gap fresh status => exact absurd (hR.known _ hold) (not_lt.2 fresh)
    | @judged r m policy mem main pc review =>
      rw [(judge_same registry (_make_guard record settings) settings o._declaratives r).1] at hold
      exact absurd (hI.planned_of_underReview main pc mem review) (hR.decided r mem hold).2
    | @settled r t error mem task state id =>
      cases error <;> exact ⟨nofun, nofun⟩
    | skipped mem => exact ⟨nofun, nofun⟩
    | approved mem operator held => exact ⟨nofun, nofun⟩
    | denied mem operator held => exact ⟨nofun, nofun⟩
  · -- a step that was approved is stored with the same key, and was held or approved before
    have happroved : s.id ∈ o'.approvals → Resolves registry o' s := by
      intro hid
      rcases (origin_of_move h hs).key with ⟨r, hr, hrid, hkey⟩ | hfresh
      swap
      · exact absurd (hknown _ hid) (not_lt.2 hfresh)
      have hres : Resolves registry o r := by
        rcases approvals_of_move h with happ | ⟨step_id, -, held, happ, -⟩
        · exact hR.resolves r hr (Or.inr (by rw [hrid, ← happ]; exact hid))
        · rw [happ] at hid
          rcases List.mem_append.1 hid with hid | hid
          · exact hR.resolves r hr (Or.inr (hrid ▸ hid))
          · have hstep : r.id = step_id := hrid.trans (List.mem_singleton.1 hid)
            exact hR.resolves r hr (Or.inl (hI.status_of_held held hr hstep))
      obtain ⟨-, hclass, hname⟩ : r.endpoint_id = s.endpoint_id ∧ r.check_class = s.check_class ∧
          r.check_name = s.check_name := by simpa [PlanStep.key] using hkey
      refine hfrozen fun declaratives hd ↦ ?_
      rw [← hclass, ← hname]
      exact hres declaratives hd
    rcases hwhich with hheld | hid
    · rcases held_of_move h hs hheld with mem | ⟨m, rfl, r, hr, rfl⟩
      · exact hfrozen (hR.resolves s mem (Or.inl hheld))
      · intro declaratives hd
        rw [DeclsOf, policy_snapshot] at hd
        obtain ⟨-, -, hclass, hname⟩ :=
          judge_same registry (_make_guard record settings) settings o._declaratives r
        rw [hclass, hname, hI.resolve hr hd]
        have hverdict := verdict_judge registry (_make_guard record settings) settings
          o._declaratives r
        rw [hheld] at hverdict
        cases hverdict with
        | held check hcheck hallowed => exact ⟨check, hcheck⟩
    · exact happroved hid

/-- What waits after a move waited before, or was held and is approved now. -/
theorem waits_of_move {e : EngineEvent} (hR : Registered registry o)
    (hI : Inv registry record settings bookkeeping o) (h : Move registry record settings o e o')
    (kept : ∀ t ∈ o.tasks, ∃ t' ∈ o'.tasks, t'.step = t.step) {s : PlanStep} (hs : s ∈ o'.steps)
    (hW : o'.Waits s) : s ∈ o.steps ∧ o.Waits s ∨
      (∃ user_id note, e = .approve s.id user_id note) ∧ o.held s.id = true := by
  obtain ⟨hstatus, happroved, hhanded⟩ := hW
  have hunhanded : ¬o.Handed s.id := by
    rintro ⟨t, ht, hid⟩
    obtain ⟨t', ht', hstep⟩ := kept t ht
    exact hhanded ⟨t', ht', hstep ▸ hid⟩
  have hold : s.id ∈ o.approvals → s ∈ o.steps ∧ o.Waits s := by
    intro hid
    cases origin_of_move h hs with
    | kept mem => exact ⟨mem, hstatus, hid, hunhanded⟩
    | planned main pc fresh status => rw [status] at hstatus; cases hstatus
    | gap fresh status => exact absurd (hR.known _ hid) (not_lt.2 fresh)
    | @judged r m policy mem main pc review =>
      rw [(judge_same registry (_make_guard record settings) settings o._declaratives r).1] at hid
      exact absurd (hI.planned_of_underReview main pc mem review) (hR.decided r mem hid).2
    | @settled r t error mem task state id => cases error <;> cases hstatus
    | skipped mem => cases hstatus
    | approved mem operator held =>
      exact absurd (hI.status_of_held held mem rfl) (hR.decided _ mem hid).1
    | denied mem operator held => cases hstatus
  rcases approvals_of_move h with happ | ⟨step_id, he, held, happ, -⟩
  · exact Or.inl (hold (happ ▸ happroved))
  · rw [happ] at happroved
    rcases List.mem_append.1 happroved with hid | hid
    · exact Or.inl (hold hid)
    · rw [← List.mem_singleton.1 hid] at he held
      exact Or.inr ⟨he, held⟩

/-- **The invariant of a run.** -/
structure Safe (registry : _Registry) (record : AuthorizationRecord) (settings : Settings)
    (o : Orchestrator) : Prop where
  inv : Inv registry record settings bookkeeping o
  keyed : o.Keyed
  registered : Registered registry o
  launched : ∀ x ∈ o.executions, ∀ id ∈ x.step_ids, id ∈ o.approvals
  inHands : InHands settings o

/-- Copies of a step that waits resolve to a check. -/
theorem Safe.resolves (hS : Safe registry record settings o) {s r : PlanStep} (hs : s ∈ o.steps)
    (hid : s.id ∈ o.approvals) (hr : r ∈ o.copies) (hrid : r.id = s.id) :
    ∃ c, _resolve_check registry r.check_name r.check_class o._declaratives = some c := by
  have hkey := (hS.keyed r (mem_holders.2 (Or.inl hr))).2 s hs hrid.symm
  obtain ⟨-, hclass, hname⟩ : s.endpoint_id = r.endpoint_id ∧ s.check_class = r.check_class ∧
      s.check_name = r.check_name := by simpa [PlanStep.key] using hkey
  rw [← hclass, ← hname]
  exact hS.registered.resolves s hs (Or.inr hid) _ (declsOf_declaratives o)

end Orchestrator

end Sentrik
