import Sentrik.Orchestration.Clearance

/-!
# Where stored steps come from

A step that is stored after a step of the machine was stored before, or is new; and if its status is
another one, somebody wrote it: policy, an operator, the result of an agent, or an execution that finds
the record inactive. `Origin` is the inversion of the step function on stored steps, as `Move` is on
whole states.

Nobody writes the endpoint, the class or the check name of a stored step. So whoever holds a copy of a
step holds the key of the stored one (`Keyed`).
-/

namespace Sentrik

/-- What a step is planned for. -/
def PlanStep.key (s : PlanStep) : ℕ × String × String := (s.endpoint_id, s.check_class, s.check_name)

namespace Orchestrator

theorem await_step_approvals_steps {settings : Settings} (o : Orchestrator) (m : Main)
    (approved pending : List ℕ) (expired : Bool) :
    (_await_step_approvals settings o m approved pending expired).steps = o.steps := by
  unfold _await_step_approvals
  dsimp only
  split <;> rfl

/-! ### Who holds a step -/

/-- Whoever holds this step holds the key of the stored step with its id. -/
def Keys (o : Orchestrator) (r : PlanStep) : Prop :=
  r.id < o.nextId ∧ ∀ s ∈ o.steps, s.id = r.id → s.key = r.key

/-- The steps that the tasks hold. -/
def holders (o : Orchestrator) : List PlanStep := o.copies ++ o.tasks.map (·.step)

/-- **The invariant.** -/
def Keyed (o : Orchestrator) : Prop := ∀ r ∈ o.holders, o.Keys r

section

variable {o o' : Orchestrator}

theorem mem_holders {r : PlanStep} :
    r ∈ o.holders ↔ r ∈ o.copies ∨ ∃ t ∈ o.tasks, t.step = r := by
  rw [holders, List.mem_append, List.mem_map]

/-- Control steps take up nothing. -/
theorem Control.holders (h : Control o o') : o'.holders ⊆ o.holders := by
  intro r hr
  rw [mem_holders] at hr ⊢
  refine hr.imp (h.copies ·) fun ⟨t', ht', hstep⟩ ↦ ?_
  obtain ⟨t, ht, hjob⟩ := h.jobs t' ht'
  exact ⟨t, ht, hjob.1.symm.trans hstep⟩

/-- The task of the run takes up copies, and nobody else does. -/
theorem holders_of_main {r : PlanStep} {m' : Main} (hr : r ∈ o'.holders) (main' : o'.main = some m')
    (executions : o'.executions = o.executions) (tasks : o'.tasks = o.tasks) :
    r ∈ m'.copies ∨ r ∈ o.holders := by
  rw [mem_holders, mem_copies] at hr
  rcases hr with (⟨m, hm, hr⟩ | ⟨x, hx, hr⟩) | ⟨t, ht, hstep⟩
  · rw [Option.some.inj (main'.symm.trans hm)]
    exact Or.inl hr
  · exact Or.inr (mem_holders.2 (Or.inl (mem_copies.2 (Or.inr ⟨x, executions ▸ hx, hr⟩))))
  · exact Or.inr (mem_holders.2 (Or.inr ⟨t, tasks ▸ ht, hstep⟩))

/-- An execution takes up copies, and nobody else does. -/
theorem holders_of_execution {r : PlanStep} {j : ℕ} {x' : Execution} (hr : r ∈ o'.holders)
    (executions : o'.executions = o.executions.set j x') (main : o'.main = o.main)
    (tasks : o'.tasks = o.tasks) : r ∈ x'.pc.copies ∨ r ∈ o.holders := by
  rw [mem_holders, mem_copies] at hr
  rcases hr with (⟨m, hm, hr⟩ | ⟨x, hx, hr⟩) | ⟨t, ht, hstep⟩
  · exact Or.inr (mem_holders.2 (Or.inl (mem_copies.2 (Or.inl ⟨m, main ▸ hm, hr⟩))))
  · rw [executions] at hx
    rcases List.mem_or_eq_of_mem_set hx with hx | rfl
    · exact Or.inr (mem_holders.2 (Or.inl (mem_copies.2 (Or.inr ⟨x, hx, hr⟩))))
    · exact Or.inl hr
  · exact Or.inr (mem_holders.2 (Or.inr ⟨t, tasks ▸ ht, hstep⟩))

/-- The agents of copies that were held. -/
theorem holders_spawn {registry : _Registry} {o₁ : Orchestrator} {steps : List PlanStep} {tasks : List AgentTask}
    {declaratives : List DeclarativeCheck} {client : ℕ}
    (agents : agentsFor registry o₁ declaratives client steps = some tasks) {r : PlanStep}
    (hr : r ∈ (o.spawn tasks).holders) : r ∈ o.holders ∨ r ∈ steps := by
  rw [mem_holders] at hr
  rcases hr with hr | ⟨t, ht, rfl⟩
  · exact Or.inl (mem_holders.2 (Or.inl hr))
  rcases List.mem_append.1 ht with ht | ht
  · exact Or.inl (mem_holders.2 (Or.inr ⟨t, ht, rfl⟩))
  · exact Or.inr (agentsFor_mem agents ht).1

end

/-! ### Origins -/

variable (registry : _Registry) (record : AuthorizationRecord) (settings : Settings)
variable [u : UnicodeTables]

/-- **Where a step that is stored afterwards comes from.** -/
inductive Origin (o : Orchestrator) (e : EngineEvent) : PlanStep → Prop
  | kept {s : PlanStep} (mem : s ∈ o.steps) : Origin o e s
  /-- Planning has created it. -/
  | planned {s : PlanStep} {m : Main} (main : o.main = some m) (pc : m.pc = .inside .plan)
    (fresh : o.nextId ≤ s.id) (status : s.status = .planned) : Origin o e s
  /-- Replanning has created it, for the check picked for its class. -/
  | gap {s : PlanStep} (fresh : o.nextId ≤ s.id) (status : s.status = .approved) : Origin o e s
  | judged {s : PlanStep} {m : Main} (policy : e = .main .policy) (mem : s ∈ o.steps)
    (main : o.main = some m) (pc : m.pc = .inside .policy) (review : s.id ∈ underReview settings o m) :
    Origin o e (judge registry (_make_guard record settings) settings o._declaratives s)
  /-- The result of an agent was written. -/
  | settled {s : PlanStep} {t : AgentTask} {error : Bool} (mem : s ∈ o.steps) (task : t ∈ o.tasks)
    (state : t.state = .finished error) (id : s.id = t.step.id) :
    Origin o e { s with status := resultStatus error }
  /-- An execution found the record inactive. -/
  | skipped {s : PlanStep} {policy_decision : PolicyDecision} (mem : s ∈ o.steps) :
    Origin o e { s with status := .skipped, policy_decision }
  | approved {s : PlanStep} {user_id : ℕ} {note : String} {policy_decision : PolicyDecision}
    (mem : s ∈ o.steps) (operator : e = .approve s.id user_id note) (held : o.held s.id = true) :
    Origin o e { s with status := .approved, policy_decision }
  | denied {s : PlanStep} {user_id : ℕ} {note : String} {policy_decision : PolicyDecision}
    (mem : s ∈ o.steps) (operator : e = .deny s.id user_id note) (held : o.held s.id = true) :
    Origin o e { s with status := .denied, policy_decision }

variable {registry record settings} {o o' : Orchestrator} {e : EngineEvent} {s : PlanStep}

theorem Origin.of_steps (h : o'.steps = o.steps) (hs : s ∈ o'.steps) :
    Origin registry record settings o e s := .kept (h ▸ hs)

theorem phase_policy_steps (o : Orchestrator) (m : Main) :
    (_phase_policy registry record settings o m).steps =
      (judgeAll registry record settings o (underReview settings o m)).steps := by
  have hfreeze : (judgeAll registry record settings o (underReview settings o m)).freeze.steps =
      (judgeAll registry record settings o (underReview settings o m)).steps := by rw [freeze_eq]
  rw [← hfreeze]
  unfold _phase_policy
  dsimp only
  split_ifs <;> rfl

/-- **The inversion on stored steps.** -/
theorem origin_of_move (h : Move registry record settings o e o') (hs : s ∈ o'.steps) :
    Origin registry record settings o e s := by
  cases h with
  | control control => exact .of_steps control.steps hs
  | @planned m multi strategy order main pc =>
    have hsteps : (_phase_planning registry record settings o m multi strategy order).steps =
        o.steps ++ o.numbered ((planOf registry record settings o m multi strategy order).map
          plannedRow) := by
      unfold _phase_planning
      dsimp only
      rw [freeze_eq]
      rfl
    rw [hsteps] at hs
    rcases List.mem_append.1 hs with hs | hs
    · exact .kept hs
    · obtain ⟨r, hr, i, -, rfl⟩ := mem_numbered hs
      obtain ⟨p, -, rfl⟩ := List.mem_map.1 hr
      exact .planned main pc (Nat.le_add_right _ _) rfl
  | @judged m main pc =>
    rw [phase_policy_steps] at hs
    obtain ⟨r, hr, rfl⟩ := List.mem_map.1 hs
    split
    next hid => exact .judged rfl hr main pc hid
    next => exact .kept hr
  | polled main pc =>
    rw [await_step_approvals_steps] at hs
    exact .kept hs
  | takes main pc => exact .kept hs
  | dispatched main pc agents =>
    rw [freeze_eq] at hs
    exact .kept hs
  | @settled _ i t error _ task state control =>
    rw [control.steps] at hs
    obtain ⟨r, hr, rfl⟩ := List.mem_map.1 hs
    split
    next hid => exact .settled hr (List.mem_of_getElem? task) state hid
    next => exact .kept hr
  | @replanned m iteration answer tasks main pc goes order agents =>
    rcases List.mem_append.1 hs with hs | hs
    · exact .kept hs
    · obtain ⟨r, hr, i, -, rfl⟩ := mem_numbered hs
      obtain ⟨gap, -, rfl⟩ := List.mem_map.1 hr
      exact .gap (Nat.le_add_right _ _) rfl
  | @began j x now execution =>
    unfold execute_approved_steps at hs
    dsimp only at hs
    split at hs
    · exact .kept hs
    split at hs
    · obtain ⟨r, hr, rfl⟩ := List.mem_map.1 hs
      split
      · exact .skipped hr
      · exact .kept hr
    · exact .kept hs
  | executed execution pc agents =>
    rw [freeze_eq] at hs
    exact .kept hs
  | invoked task control => exact .of_steps control.steps hs
  | approved held control =>
    rw [control.steps] at hs
    obtain ⟨r, hr, rfl⟩ := List.mem_map.1 hs
    split
    next hid => exact .approved hr (by rw [hid]) (hid ▸ held)
    next => exact .kept hr
  | denied held control =>
    rw [control.steps] at hs
    obtain ⟨r, hr, rfl⟩ := List.mem_map.1 hs
    split
    next hid => exact .denied hr (by rw [hid]) (hid ▸ held)
    next => exact .kept hr
  | cancelled cancels control => exact .of_steps control.steps hs
  | cleared control =>
    rw [control.steps] at hs
    cases hs

theorem origin_of_step (h : step registry record settings o e = some o') (hs : s ∈ o'.steps) :
    Origin registry record settings o e s :=
  origin_of_move (move_of_step h) hs

/-! ### Keys of held steps -/

/-- The counter only goes on. -/
theorem nextId_of_move (h : Move registry record settings o e o') : o.nextId ≤ o'.nextId := by
  cases h with
  | control control => exact control.nextId
  | planned main pc =>
    unfold _phase_planning
    dsimp only
    rw [freeze_eq]
    exact Nat.le_add_right _ _
  | @judged m main pc =>
    have hfreeze : (judgeAll registry record settings o (underReview settings o m)).freeze.nextId =
        o.nextId := by
      rw [freeze_eq]
      rfl
    refine Nat.le_of_eq (hfreeze.symm.trans ?_)
    unfold _phase_policy
    dsimp only
    split_ifs <;> rfl
  | polled main pc =>
    unfold _await_step_approvals
    dsimp only
    split <;> exact Nat.le_refl _
  | takes main pc => exact Nat.le_refl _
  | dispatched main pc agents =>
    rw [freeze_eq]
    exact Nat.le_refl _
  | settled task state control => exact control.nextId
  | replanned main pc goes order agents => exact Nat.le_add_right _ _
  | began execution =>
    unfold execute_approved_steps
    dsimp only
    split_ifs <;> exact Nat.le_refl _
  | executed execution pc agents =>
    rw [freeze_eq]
    exact Nat.le_refl _
  | invoked task control => exact control.nextId
  | approved held control => exact control.nextId
  | denied held control => exact control.nextId
  | cancelled cancels control => exact control.nextId
  | cleared control => exact control.nextId

/-- The key of a stored step does not change. -/
theorem Origin.key (h : Origin registry record settings o e s) :
    (∃ r ∈ o.steps, r.id = s.id ∧ r.key = s.key) ∨ o.nextId ≤ s.id := by
  cases h with
  | kept mem => exact Or.inl ⟨s, mem, rfl, rfl⟩
  | planned main pc fresh status => exact Or.inr fresh
  | gap fresh status => exact Or.inr fresh
  | @judged r m policy mem main pc review =>
    obtain ⟨hid, hendpoint, hclass, hname⟩ :=
      judge_same registry (_make_guard record settings) settings o._declaratives r
    refine Or.inl ⟨r, mem, hid.symm, ?_⟩
    rw [PlanStep.key, PlanStep.key, hendpoint, hclass, hname]
  | settled mem task state id => exact Or.inl ⟨_, mem, rfl, rfl⟩
  | skipped mem => exact Or.inl ⟨_, mem, rfl, rfl⟩
  | approved mem operator held => exact Or.inl ⟨_, mem, rfl, rfl⟩
  | denied mem operator held => exact Or.inl ⟨_, mem, rfl, rfl⟩

theorem Keys.move {r : PlanStep} (hr : o.Keys r) (h : Move registry record settings o e o') :
    o'.Keys r := by
  refine ⟨hr.1.trans_le (nextId_of_move h), fun s hs hid ↦ ?_⟩
  rcases (origin_of_move h hs).key with ⟨s₀, hs₀, hid₀, hkey⟩ | hfresh
  · exact hkey.symm.trans (hr.2 s₀ hs₀ (hid₀.trans hid))
  · exact absurd hr.1 (not_lt.2 (hid ▸ hfresh))

/-- **What the tasks take up is stored.** -/
theorem holders_of_move (h : Move registry record settings o e o') {r : PlanStep}
    (hr : r ∈ o'.holders) : r ∈ o.holders ∨ r ∈ o'.steps := by
  have hallowed : ∀ {m : Main}, o.main = some m → ∀ {r}, r ∈ m.allowed → r ∈ o.holders :=
    fun main _ hr ↦ mem_holders.2 (Or.inl (mem_copies.2 (Or.inl ⟨_, main, List.mem_append_left _ hr⟩)))
  have hheld : ∀ {m : Main}, o.main = some m → ∀ {r}, r ∈ m.pc.copies → r ∈ o.holders :=
    fun main _ hr ↦
      mem_holders.2 (Or.inl (mem_copies.2 (Or.inl ⟨_, main, List.mem_append_right _ hr⟩)))
  cases h with
  | control control => exact Or.inl (control.holders hr)
  | @planned m multi strategy order main pc =>
    left
    rcases holders_of_main (o := o) hr rfl (by rw [_phase_planning, freeze_eq]; rfl)
      (by rw [_phase_planning, freeze_eq]; rfl) with hr | hr
    · exact hallowed main ((List.mem_append.1 hr).resolve_right List.not_mem_nil)
    · exact hr
  | @judged m main pc =>
    have hfrozen : (judgeAll registry record settings o (underReview settings o m)).freeze =
        { o.freeze with
          steps := (judgeAll registry record settings o (underReview settings o m)).steps } :=
      freeze_judgeAll o _
    have hexec : (judgeAll registry record settings o (underReview settings o m)).freeze.executions =
        o.executions := by rw [hfrozen, freeze_eq]
    have htasks : (judgeAll registry record settings o (underReview settings o m)).freeze.tasks =
        o.tasks := by rw [hfrozen, freeze_eq]
    unfold _phase_policy at hr ⊢
    dsimp only at hr ⊢
    split_ifs at hr ⊢
    · refine Or.inl ((holders_of_main (o := o) hr rfl hexec htasks).elim (fun hr ↦ ?_) id)
      exact hallowed main ((List.mem_append.1 hr).resolve_right List.not_mem_nil)
    · refine Or.inl ((holders_of_main (o := o) hr rfl hexec htasks).elim (fun hr ↦ ?_) id)
      exact hallowed main ((List.mem_append.1 hr).resolve_right List.not_mem_nil)
    · refine (holders_of_main (o := o) hr rfl hexec htasks).symm.imp_right fun hr ↦ ?_
      exact List.mem_of_mem_filter ((List.mem_append.1 hr).resolve_right List.not_mem_nil)
    · refine Or.inl ((holders_of_main (o := o) hr rfl hexec htasks).elim (fun hr ↦ ?_) id)
      exact hallowed main ((List.mem_append.1 hr).resolve_right List.not_mem_nil)
  | @polled m approved pending expired main pc =>
    unfold _await_step_approvals at hr ⊢
    dsimp only at hr ⊢
    split at hr
    next hover =>
      rw [if_pos hover]
      refine (holders_of_main (o := o) hr rfl rfl rfl).symm.imp_right fun hr ↦ ?_
      exact List.mem_of_mem_filter ((List.mem_append.1 hr).resolve_right List.not_mem_nil)
    next =>
      refine Or.inl ((holders_of_main (o := o) hr rfl rfl rfl).elim (fun hr ↦ ?_) id)
      exact hallowed main ((List.mem_append.1 hr).resolve_right List.not_mem_nil)
  | @takes m main pc =>
    refine (holders_of_main (o := o) hr rfl rfl rfl).symm.elim Or.inl fun hr ↦ ?_
    rcases List.mem_append.1 hr with hr | hr
    · exact Or.inl (hallowed main hr)
    · change r ∈ toExecute settings o m at hr
      rw [toExecute] at hr
      split at hr
      · exact Or.inr (List.mem_of_mem_filter hr)
      · exact Or.inl (hallowed main hr)
  | @dispatched m steps tasks main pc agents =>
    left
    rcases holders_of_main (o := o.freeze.spawn tasks) hr rfl rfl rfl with hr | hr
    · exact hallowed main ((List.mem_append.1 hr).resolve_right List.not_mem_nil)
    · rw [freeze_eq] at hr
      rcases holders_spawn agents hr with hr | hr
      · exact hr
      · exact hheld main (by rw [pc]; exact hr)
  | settled task state control => exact Or.inl (control.holders hr)
  | @replanned m iteration answer tasks main pc goes order agents =>
    rcases holders_of_main (o := (o.addSteps (gapRows registry record settings o m
      answer.classes)).spawn tasks) hr rfl rfl rfl with hr | hr
    · exact Or.inl (hallowed main ((List.mem_append.1 hr).resolve_right List.not_mem_nil))
    · rcases holders_spawn agents hr with hr | hr
      · exact Or.inl hr
      · exact Or.inr (List.mem_append_right _ hr)
  | @began j x now execution =>
    unfold execute_approved_steps at hr ⊢
    dsimp only at hr ⊢
    split_ifs at hr ⊢
    · exact Or.inl ((holders_of_execution (o := o) hr rfl rfl rfl).resolve_left List.not_mem_nil)
    · refine (holders_of_execution (o := o) hr rfl rfl rfl).symm.imp_right fun hr ↦ ?_
      exact List.mem_of_mem_filter (List.mem_of_mem_filter hr)
    · exact Or.inl ((holders_of_execution (o := o) hr rfl rfl rfl).resolve_left List.not_mem_nil)
  | @executed j x steps tasks execution pc agents =>
    left
    rcases holders_of_execution (o := o.freeze.spawn tasks) hr rfl rfl rfl with hr | hr
    · cases hr
    · rw [freeze_eq] at hr
      rcases holders_spawn agents hr with hr | hr
      · exact hr
      · refine mem_holders.2 (Or.inl (mem_copies.2 (Or.inr ⟨x, List.mem_of_getElem? execution, ?_⟩)))
        rw [pc]
        exact hr
  | invoked task control => exact Or.inl (control.holders hr)
  | approved held control => exact Or.inl (control.holders hr)
  | denied held control => exact Or.inl (control.holders hr)
  | cancelled cancels control => exact Or.inl (control.holders hr)
  | cleared control => exact Or.inl (control.holders hr)

/-- Who takes up a step takes up the key of the stored one. -/
theorem Keyed.move (hK : o.Keyed) (hI' : Inv registry record settings bookkeeping o')
    (h : Move registry record settings o e o') : o'.Keyed := by
  intro r hr
  rcases holders_of_move h hr with hr | hr
  · exact (hK r hr).move h
  · exact ⟨hI'.fresh r hr, fun s hs hid ↦ by rw [List.inj_on_of_nodup_map hI'.nodup hs hr hid]⟩

/-- **Whoever holds a step holds the key of the stored one**, in every run. -/
theorem keyed_of_run {org_id : ℕ} {requested : List String} {incremental : Bool}
    {prev : Option (List Text)} {es : List EngineEvent}
    (h : Machine.run (step registry record settings) (created org_id requested incremental prev) es =
      some o) : o.Keyed := by
  refine (Machine.inv_of_run (I := fun o ↦ Inv registry record settings bookkeeping o ∧ o.Keyed)
    (fun ⟨hI, hK⟩ hs ↦ ?_) h ⟨Inv.created .., fun r hr ↦ absurd hr List.not_mem_nil⟩).2
  have hI' := hI.step (respects_bookkeeping _ _) hs
  exact ⟨hI', hK.move hI' (move_of_step hs)⟩

end Orchestrator

end Sentrik
