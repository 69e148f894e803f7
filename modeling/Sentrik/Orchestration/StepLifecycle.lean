import Sentrik.Orchestration.StepOrigins

/-!
# The life of a plan step

A step is planned, judged by policy, decided by an operator where policy holds it, executed, and given the
outcome of its check. Many tasks write the status of a step, in any order. `leadsTo` is what they respect
together: it is transitive, so it relates the status of a row at any moment to its status at any later one.
A denial is final, and a step that execution may have taken up never goes back to policy or to an operator.

`Writes` is the inversion of the step function on the whole table of plan steps: rows are added, or rewritten
in place, or the startup sweep clears the table. In contrast to `Origin` it says what becomes of every row.

## Calls

A call of `check.run` is made by a task that has had its copy of the step for a while.
`invoked_of_run` says that the row has been let through all the same, and has the key of the copy.
-/

namespace Sentrik

namespace StepStatus

/-- What the status of a stored step may turn into. -/
def leadsTo : StepStatus → StepStatus → Bool
  | planned, _ => true
  | awaiting_approval, s => s != planned
  | denied, s => s == denied
  | approved, s => s == approved || [done, errored, skipped].contains s
  | done, s | errored, s | skipped, s => [done, errored, skipped].contains s

@[simp] theorem leadsTo_refl (s : StepStatus) : s.leadsTo s = true := by
  cases s <;> decide

theorem leadsTo_trans {s t r : StepStatus} (hst : s.leadsTo t = true) (htr : t.leadsTo r = true) :
    s.leadsTo r = true := by
  revert s t r
  have h : ∀ s ∈ [planned, skipped, denied, awaiting_approval, approved, done, errored],
      ∀ t ∈ [planned, skipped, denied, awaiting_approval, approved, done, errored],
      ∀ r ∈ [planned, skipped, denied, awaiting_approval, approved, done, errored],
      s.leadsTo t = true → t.leadsTo r = true → s.leadsTo r = true := by decide
  intro s t r
  exact h s (by cases s <;> decide) t (by cases t <;> decide) r (by cases r <;> decide)

/-- The outcome of a check is written over every status that execution may have taken up. -/
theorem leadsTo_resultStatus {s : StepStatus} (h : s.released = true) (error : Bool) :
    s.leadsTo (Orchestrator.resultStatus error) = true := by
  cases s <;> cases h <;> cases error <;> rfl

end StepStatus

namespace Orchestrator

variable (registry : _Registry) (record : AuthorizationRecord) (settings : Settings)
variable [u : UnicodeTables]

/-- **What one step does to the table of plan steps.** -/
inductive Writes (o : Orchestrator) (e : EngineEvent) (o' : Orchestrator) : Prop
  | kept (steps : o'.steps = o.steps)
  | added {rows : List PlanStep} (steps : o'.steps = o.steps ++ rows) (fresh : ∀ r ∈ rows, o.nextId ≤ r.id)
  /-- Some rows get another status, which theirs leads to. -/
  | rewritten {f : PlanStep → PlanStep} (steps : o'.steps = o.steps.map f)
    (same : ∀ s ∈ o.steps, (f s).id = s.id ∧ (f s).key = s.key)
    (leads : ∀ s ∈ o.steps, s.status.leadsTo (f s).status = true)
  | swept (restart : e = .restart) (steps : o'.steps = [])

variable {registry record settings} {o o' : Orchestrator} {e : EngineEvent}

omit u in
theorem fresh_numbered {rows : List PlanStep} {r : PlanStep} (hr : r ∈ o.numbered rows) :
    o.nextId ≤ r.id := by
  obtain ⟨s, -, i, -, rfl⟩ := mem_numbered hr
  exact Nat.le_add_right _ _

omit u in
/-- One row gets another status. -/
theorem Writes.of_setStatus {f : PlanStep → PlanStep} {p : PlanStep → Prop} [DecidablePred p]
    (steps : o'.steps = o.steps.map fun s ↦ if p s then f s else s)
    (same : ∀ s, (f s).id = s.id ∧ (f s).key = s.key)
    (leads : ∀ s ∈ o.steps, p s → s.status.leadsTo (f s).status = true) : Writes o e o' := by
  refine .rewritten steps (fun s _ ↦ ?_) fun s hs ↦ ?_
  · split
    · exact same s
    · exact ⟨rfl, rfl⟩
  · split
    next h => exact leads s hs h
    next => exact StepStatus.leadsTo_refl _

/-- The row an operator decides is held. -/
theorem held_status (hI : Inv registry record settings bookkeeping o) {s : PlanStep} (hs : s ∈ o.steps)
    {step_id : ℕ} (hheld : o.held step_id = true) (hid : s.id = step_id) :
    s.status = .awaiting_approval := by
  rw [held, Option.any_eq_true] at hheld
  obtain ⟨r, hr, hst⟩ := hheld
  have hmem := List.mem_of_find?_eq_some hr
  have hrid := List.find?_some hr
  rw [beq_iff_eq] at hrid
  have heq : r = s := List.inj_on_of_nodup_map hI.nodup hmem hs (hrid.trans hid.symm)
  exact heq ▸ beq_iff_eq.1 hst

/-- **The inversion on the table.** -/
theorem writes_of_move (hI : Inv registry record settings bookkeeping o)
    (h : Move registry record settings o e o') : Writes o e o' := by
  cases h with
  | control control => exact .kept control.steps
  | @planned m multi strategy order main pc =>
    refine @Writes.added o _ _
      (o.numbered ((planOf registry record settings o m multi strategy order).map plannedRow)) ?_
      fun r hr ↦ fresh_numbered hr
    unfold _phase_planning
    dsimp only
    rw [freeze_eq]
    rfl
  | @judged m main pc =>
    refine .of_setStatus (phase_policy_steps o m) (fun s ↦ ?_) fun s hs hid ↦ ?_
    · obtain ⟨hid, hendpoint, hclass, hname⟩ :=
        judge_same registry (_make_guard record settings) settings o._declaratives s
      exact ⟨hid, by rw [PlanStep.key, hendpoint, hclass, hname]; rfl⟩
    · -- only planned steps are judged
      rw [hI.planned_of_underReview main pc hs hid]
      rfl
  | polled main pc => exact .kept (await_step_approvals_steps _ _ _ _ _)
  | takes main pc => exact .kept rfl
  | dispatched main pc agents => exact .kept (by rw [freeze_eq]; rfl)
  | @settled _ i t error _ task state control =>
    refine .of_setStatus control.steps (fun s ↦ ⟨rfl, rfl⟩) fun s hs hid ↦ ?_
    have hreleased := (hI.tasks t (List.mem_of_getElem? task)).2.1.2 s hs hid
    exact StepStatus.leadsTo_resultStatus hreleased error
  | @replanned m iteration answer tasks main pc goes order agents =>
    exact .added rfl fun r hr ↦ fresh_numbered hr
  | @began j x now execution =>
    unfold execute_approved_steps
    dsimp only
    split_ifs
    · exact .kept rfl
    · exact .kept rfl
    · refine .of_setStatus rfl (fun s ↦ ⟨rfl, rfl⟩) fun s hs hid ↦ ?_
      -- the rows that are skipped are approved, since ids are unique
      obtain ⟨r, hr, hrid⟩ := List.mem_map.1 hid
      obtain ⟨hr, hst⟩ := List.mem_filter.1 hr
      obtain ⟨hr, -⟩ := List.mem_filter.1 hr
      have heq : r = s := List.inj_on_of_nodup_map hI.nodup hr hs hrid
      rw [← heq, beq_iff_eq.1 hst]
      rfl
  | executed execution pc agents => exact .kept (by rw [freeze_eq]; rfl)
  | invoked task control => exact .kept control.steps
  | approved held control =>
    refine .of_setStatus control.steps (fun s ↦ ⟨rfl, rfl⟩) fun s hs hid ↦ ?_
    rw [held_status hI hs held hid]
    rfl
  | denied held control =>
    refine .of_setStatus control.steps (fun s ↦ ⟨rfl, rfl⟩) fun s hs hid ↦ ?_
    rw [held_status hI hs held hid]
    rfl
  | cancelled cancels control => exact .kept control.steps
  | cleared control => exact .swept rfl control.steps

/-! ### Runs -/

/-- What can be said of a row later. -/
structure Aged (s : PlanStep) (o : Orchestrator) : Prop where
  below : s.id < o.nextId
  leads : ∀ s' ∈ o.steps, s'.id = s.id → s.status.leadsTo s'.status = true ∧ s'.key = s.key

omit u in
theorem Aged.writes {s : PlanStep} (h : Aged s o) (hw : Writes o e o') (hnext : o.nextId ≤ o'.nextId) :
    Aged s o' := by
  refine ⟨h.below.trans_le hnext, fun s' hs' hid ↦ ?_⟩
  cases hw with
  | kept steps => exact h.leads s' (steps ▸ hs') hid
  | added steps fresh =>
    rw [steps] at hs'
    rcases List.mem_append.1 hs' with hs' | hs'
    · exact h.leads s' hs' hid
    · exact absurd h.below (not_lt.2 (hid ▸ fresh s' hs'))
  | rewritten steps same leads =>
    rw [steps] at hs'
    obtain ⟨r, hr, rfl⟩ := List.mem_map.1 hs'
    obtain ⟨hrid, hkey⟩ := same r hr
    obtain ⟨hlead, hold⟩ := h.leads r hr (hrid.symm.trans hid)
    exact ⟨StepStatus.leadsTo_trans hlead (leads r hr), hkey.trans hold⟩
  | swept restart steps =>
    rw [steps] at hs'
    cases hs'

omit u in
/-- A row stays in the table until the startup sweep. -/
theorem Writes.stays (hw : Writes o e o') (he : e ≠ .restart) {id : ℕ} (h : ∃ s ∈ o.steps, s.id = id) :
    ∃ s ∈ o'.steps, s.id = id := by
  obtain ⟨s, hs, hid⟩ := h
  cases hw with
  | kept steps => exact ⟨s, steps ▸ hs, hid⟩
  | added steps fresh => exact ⟨s, steps ▸ List.mem_append_left _ hs, hid⟩
  | @rewritten f steps same leads =>
    exact ⟨f s, steps ▸ List.mem_map_of_mem hs, (same s hs).1.trans hid⟩
  | swept restart steps => exact absurd restart he

/-- What a run keeps of a row. -/
theorem aged_of_run {s : PlanStep} {es : List EngineEvent}
    (hI : Inv registry record settings bookkeeping o) (hs : Aged s o)
    (h : Machine.run (step registry record settings) o es = some o') : Aged s o' := by
  refine (Machine.inv_of_run (I := fun o ↦ Inv registry record settings bookkeeping o ∧ Aged s o)
    (fun ⟨hI, hs⟩ hstep ↦ ?_) h ⟨hI, hs⟩).2
  have hmove := move_of_step hstep
  exact ⟨hI.step (respects_bookkeeping _ _) hstep, hs.writes (writes_of_move hI hmove) (nextId_of_move hmove)⟩

theorem stays_of_run {id : ℕ} {es : List EngineEvent}
    (hI : Inv registry record settings bookkeeping o) (hid : ∃ s ∈ o.steps, s.id = id)
    (hes : EngineEvent.restart ∉ es)
    (h : Machine.run (step registry record settings) o es = some o') : ∃ s ∈ o'.steps, s.id = id := by
  induction es generalizing o with
  | nil => exact Option.some.inj h ▸ hid
  | cons e es ih =>
    obtain ⟨o₁, hstep, hrest⟩ := Option.bind_eq_some_iff.1 h
    have hw := writes_of_move hI (move_of_step hstep)
    exact ih (hI.step (respects_bookkeeping _ _) hstep)
      (hw.stays (fun he ↦ hes (he ▸ List.mem_cons_self)) hid) (List.not_mem_of_not_mem_cons hes) hrest

/-- **The life of a step.** Whatever happens after a row was seen, in any run: as long as its id is
stored, the row has the same endpoint, class and check, and a status the one that was seen leads to; and
it is stored, unless the process has been restarted since. -/
theorem lifecycle_of_run {org_id : ℕ} {requested : List String} {incremental : Bool}
    {prev : Option (List Text)} {es es' : List EngineEvent} {s : PlanStep}
    (h : Machine.run (step registry record settings) (created org_id requested incremental prev) es =
      some o)
    (hs : s ∈ o.steps) (h' : Machine.run (step registry record settings) o es' = some o') :
    (∀ s' ∈ o'.steps, s'.id = s.id → s.status.leadsTo s'.status = true ∧ s'.key = s.key) ∧
      (EngineEvent.restart ∉ es' → ∃ s' ∈ o'.steps, s'.id = s.id) := by
  have hI : Inv registry record settings bookkeeping o :=
    Machine.inv_of_run (fun hI hstep ↦ hI.step (respects_bookkeeping _ _) hstep) h (Inv.created ..)
  have hseen : Aged s o := by
    refine ⟨hI.fresh s hs, fun s' hs' hid ↦ ?_⟩
    rw [List.inj_on_of_nodup_map hI.nodup hs' hs hid]
    exact ⟨StepStatus.leadsTo_refl _, rfl⟩
  exact ⟨(aged_of_run hI hseen h').leads, fun hes ↦ stays_of_run hI ⟨s, hs, rfl⟩ hes h'⟩

/-! ### Calls -/

/-- A call is made by a task, for the step of the task. -/
theorem invoked_of_move (h : Move registry record settings o e o') {v : Invocation}
    (hv : v ∈ o'.invocations) : v ∈ o.invocations ∨ ∃ t ∈ o.tasks, t.step = v.step := by
  cases h with
  | control control => exact Or.inl (control.invocations ▸ hv)
  | @planned m multi strategy order main pc =>
    rw [_phase_planning, freeze_eq] at hv
    exact Or.inl hv
  | @judged m main pc =>
    have hfrozen : (judgeAll registry record settings o (underReview settings o m)).freeze.invocations =
        o.invocations := by
      rw [freeze_eq]
      rfl
    unfold _phase_policy at hv
    dsimp only at hv
    split_ifs at hv <;> exact Or.inl (hfrozen ▸ hv)
  | polled main pc =>
    unfold _await_step_approvals at hv
    dsimp only at hv
    split_ifs at hv <;> exact Or.inl hv
  | takes main pc => exact Or.inl hv
  | dispatched main pc agents =>
    rw [freeze_eq] at hv
    exact Or.inl hv
  | settled task state control => exact Or.inl (control.invocations ▸ hv)
  | replanned main pc goes order agents => exact Or.inl hv
  | began execution =>
    unfold execute_approved_steps at hv
    dsimp only at hv
    split_ifs at hv <;> exact Or.inl hv
  | executed execution pc agents =>
    rw [freeze_eq] at hv
    exact Or.inl hv
  | invoked task control =>
    rcases List.mem_append.1 hv with hv | hv
    · exact Or.inl (control.invocations ▸ hv)
    · exact Or.inr ⟨_, List.mem_of_getElem? task, by rw [List.mem_singleton.1 hv]⟩
  | approved held control => exact Or.inl (control.invocations ▸ hv)
  | denied held control => exact Or.inl (control.invocations ▸ hv)
  | cancelled cancels control => exact Or.inl (control.invocations ▸ hv)
  | cleared control => exact Or.inl (control.invocations ▸ hv)

/-- Tasks and calls, each with the key of the stored row. -/
def Matched (o : Orchestrator) : Prop := o.Keyed ∧ ∀ v ∈ o.invocations, o.Keys v.step

theorem Matched.move (hM : o.Matched) (hI' : Inv registry record settings bookkeeping o')
    (h : Move registry record settings o e o') : o'.Matched := by
  refine ⟨hM.1.move hI' h, fun v hv ↦ ?_⟩
  rcases invoked_of_move h hv with hv | ⟨t, ht, hstep⟩
  · exact (hM.2 v hv).move h
  · rw [← hstep]
    exact (hM.1 t.step (mem_holders.2 (Or.inr ⟨t, ht, rfl⟩))).move h

/-- **No call for a step that was not let through**, in any run: the check of a call runs on the endpoint
its step names, and while the row is stored it is neither unjudged nor held nor denied, and names the same
endpoint, class and check. -/
theorem invoked_of_run {org_id : ℕ} {requested : List String} {incremental : Bool}
    {prev : Option (List Text)} {es : List EngineEvent}
    (h : Machine.run (step registry record settings) (created org_id requested incremental prev) es =
      some o) :
    ∀ v ∈ o.invocations, v.endpoint.id = v.step.endpoint_id ∧
      ∀ s ∈ o.steps, s.id = v.step.id → s.status.released = true ∧ s.key = v.step.key := by
  have hboth : Inv registry record settings bookkeeping o ∧ o.Matched :=
    Machine.inv_of_run (I := fun o ↦ Inv registry record settings bookkeeping o ∧ o.Matched)
      (fun ⟨hI, hM⟩ hstep ↦
        have hI' := hI.step (respects_bookkeeping _ _) hstep
        ⟨hI', hM.move hI' (move_of_step hstep)⟩) h
      ⟨Inv.created .., fun r hr ↦ absurd hr List.not_mem_nil, fun v hv ↦ absurd hv List.not_mem_nil⟩
  intro v hv
  obtain ⟨-, hreleased, hendpoint⟩ := hboth.1.invocations v hv
  exact ⟨hendpoint, fun s hs hid ↦ ⟨hreleased.2 s hs hid, (hboth.2.2 v hv).2 s hs hid⟩⟩

end Orchestrator

section

attribute [local instance] asciiTables

/-- A step that policy has approved, and the rest of its run. -/
theorem lifecycle_of_run_approved : ∃ o o' s, Machine.run
      (Orchestrator.step builtinRegistry (scanRecord ["security_headers"]) {})
      (.created 1 [] false none) (throughPolicy [sampleEndpoint]) = some o ∧ s ∈ o.steps ∧
    Machine.run (Orchestrator.step builtinRegistry (scanRecord ["security_headers"]) {}) o
      (throughDispatch ++ runAgent 0 ++ throughReplan ["security_headers"]) = some o' ∧
    (∀ s' ∈ o'.steps, s'.id = s.id → s.status.leadsTo s'.status = true ∧ s'.key = s.key) ∧
      ∃ s' ∈ o'.steps, s'.id = s.id := by
  obtain ⟨o, h, hsteps, hrest⟩ : ∃ o, Machine.run
      (Orchestrator.step builtinRegistry (scanRecord ["security_headers"]) {})
      (.created 1 [] false none) (throughPolicy [sampleEndpoint]) = some o ∧ o.steps ≠ [] ∧
      (Machine.run (Orchestrator.step builtinRegistry (scanRecord ["security_headers"]) {}) o
        (throughDispatch ++ runAgent 0 ++ throughReplan ["security_headers"])).isSome := by
    decide +kernel
  obtain ⟨s, hs⟩ := List.exists_mem_of_ne_nil _ hsteps
  obtain ⟨o', h'⟩ := Option.isSome_iff_exists.1 hrest
  obtain ⟨hlater, hstored⟩ := Orchestrator.lifecycle_of_run h hs h'
  refine ⟨o, o', s, h, hs, h', hlater, hstored ?_⟩
  simp [throughDispatch, runAgent, throughReplan]

/-- A run with one call. -/
theorem invoked_of_run_agent : ∃ o, Machine.run
      (Orchestrator.step builtinRegistry (scanRecord ["security_headers"]) {})
      (.created 1 [] false none) (throughPolicy [sampleEndpoint] ++ throughDispatch ++ runAgent 0) = some o ∧
    o.invocations.length = 1 ∧ ∀ v ∈ o.invocations, v.endpoint.id = v.step.endpoint_id ∧
      ∀ s ∈ o.steps, s.id = v.step.id → s.status.released = true ∧ s.key = v.step.key := by
  obtain ⟨o, h, hlength⟩ : ∃ o, Machine.run
      (Orchestrator.step builtinRegistry (scanRecord ["security_headers"]) {})
      (.created 1 [] false none) (throughPolicy [sampleEndpoint] ++ throughDispatch ++ runAgent 0) = some o ∧
      o.invocations.length = 1 := by
    decide +kernel
  exact ⟨o, h, hlength, Orchestrator.invoked_of_run h⟩

end

end Sentrik
