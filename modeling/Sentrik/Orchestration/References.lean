import Sentrik.Orchestration.CoverageReport
import Sentrik.Orchestration.StepLifecycle
import Sentrik.Orchestration.Surface

/-!
# References between rows

Plan steps, rows of the coverage report and the copies of steps that tasks hold name an endpoint by its id.
Agents are made by looking the id up, and a step whose endpoint is not there raises (`agentsFor`). Discovery,
ingestion, planning, replanning and the executions of approved steps interleave, and the startup sweep deletes
rows, so it takes an invariant to see that the lookup succeeds.

`Referential` says that no id dangles and that no two endpoints share one. `referential_of_run` proves it for
every run, and that the steps which make agents are never stuck.

## What the invariant carries

The inline driver plans for the rows discovery returned, not for those that are stored: `saved`. And a copy is
stored as long as it is held (`held`): only the sweep deletes rows, and it leaves no task.
-/

namespace Sentrik

namespace Orchestrator

/-- Whether a stored endpoint has this id. -/
def Lists (o : Orchestrator) (id : ℕ) : Prop := id ∈ o.endpoints.map (·.id)

/-- **No reference dangles**, and none is ambiguous. -/
structure Referential (o : Orchestrator) : Prop where
  unique : (o.endpoints.map (·.id)).Nodup
  steps : ∀ s ∈ o.steps, o.Lists s.endpoint_id
  copies : ∀ r ∈ o.copies, o.Lists r.endpoint_id
  coverage : ∀ c ∈ o.coverage, o.Lists c.endpoint_id

/-- **The invariant.** -/
structure Anchored (o : Orchestrator) : Prop where
  steps : ∀ s ∈ o.steps, o.Lists s.endpoint_id
  held : ∀ r ∈ o.copies, ∃ s ∈ o.steps, s.id = r.id
  coverage : ∀ c ∈ o.coverage, o.Lists c.endpoint_id
  saved : ∀ m ∈ o.main, ∀ e ∈ m.saved, o.Lists e.id

variable {registry : _Registry} {record : AuthorizationRecord} {settings : Settings}
variable {o o₁ o' : Orchestrator} {m : Main} {e : EngineEvent}

theorem lists_of_mem {ep : Endpoint} (h : ep ∈ o.endpoints) : o.Lists ep.id := List.mem_map_of_mem h

theorem Lists.of_endpoints {id : ℕ} (h : o.Lists id) (endpoints : o'.endpoints = o.endpoints) :
    o'.Lists id := by
  rw [Lists, endpoints]
  exact h

/-! ### What grows -/

/-- No endpoint is gone, and what the task of the run has from discovery it had before, or is stored. -/
structure Grown (o o' : Orchestrator) : Prop where
  lists : ∀ id, o.Lists id → o'.Lists id
  saved : ∀ m' ∈ o'.main, ∀ ep ∈ m'.saved, (∃ m ∈ o.main, ep ∈ m.saved) ∨ o'.Lists ep.id

theorem Grown.trans (h : Grown o o₁) (h' : Grown o₁ o') : Grown o o' where
  lists id hid := h'.lists id (h.lists id hid)
  saved m' hm' ep hep := by
    rcases h'.saved m' hm' ep hep with ⟨m₁, hm₁, hep⟩ | hlists
    · exact (h.saved m₁ hm₁ ep hep).imp id (h'.lists ep.id)
    · exact Or.inr hlists

theorem Grown.of_eq (endpoints : o'.endpoints = o.endpoints) (main : o'.main = o.main) : Grown o o' where
  lists _ hid := hid.of_endpoints endpoints
  saved m' hm' _ hep := Or.inl ⟨m', main ▸ hm', hep⟩

/-- A step of the run that keeps what discovery returned. -/
theorem Grown.of_main (main : o.main = some m) (endpoints : o'.endpoints = o.endpoints)
    (saved : ∀ m' ∈ o'.main, m'.saved = m.saved) : Grown o o' where
  lists _ hid := hid.of_endpoints endpoints
  saved m' hm' _ hep := Or.inl ⟨m, main, saved m' hm' ▸ hep⟩

theorem grown_addEndpoints (o : Orchestrator) (found : List Endpoint) :
    Grown o (o.addEndpoints found).1 where
  lists id hid := by
    rw [Lists, (addEndpoints_spec o found).1, List.map_append]
    exact List.mem_append_left _ hid
  saved m' hm' ep hep := by
    rw [(sameData_addEndpoints o found).2.1] at hm'
    exact Or.inl ⟨m', hm', hep⟩

theorem grown_start_assessment (o : Orchestrator) : Grown o (start_assessment settings o) := by
  rw [start_assessment]
  split
  · exact .of_eq rfl rfl
  · refine ⟨fun _ hid ↦ hid, fun m' hm' ep hep ↦ ?_⟩
    rw [← Option.some.inj hm'] at hep
    cases hep

theorem grown_start_approved_steps (o : Orchestrator) (step_ids : List ℕ) :
    Grown o (o.start_approved_steps step_ids) := by
  rw [start_approved_steps]
  split <;> exact .of_eq rfl rfl

theorem grown_resume_if_parked (o : Orchestrator) : Grown o (_resume_if_parked settings o) := by
  rw [_resume_if_parked]
  split
  · exact .of_eq rfl rfl
  split
  · exact grown_start_assessment o
  · exact .of_eq rfl rfl

theorem closeMain_endpoints (o : Orchestrator) (m : Main) : (o.closeMain m).endpoints = o.endpoints :=
  (sameReport_closeMain o m).endpoints

theorem grown_endPhase {n : Node} {m₁ : Main} (main : o.main = some m) (saved : m₁.saved = m.saved)
    (endpoints : o₁.endpoints = o.endpoints) : Grown o (endPhase settings o₁ m₁ n) := by
  refine .of_main main ((sameReport_endPhase o₁ m₁ n).endpoints.trans endpoints) fun m' hm' ↦ ?_
  rw [endPhase] at hm'
  split at hm' <;> exact Option.some.inj hm' ▸ saved

theorem grown_setMain {m' : Main} (main : o.main = some m) (saved : m'.saved = m.saved)
    (endpoints : o₁.endpoints = o.endpoints) : Grown o (o₁.setMain m') :=
  .of_main main endpoints fun _ hm' ↦ Option.some.inj hm' ▸ saved

variable [u : UnicodeTables]

theorem grown_mainStep {e : MainEvent} (main : o.main = some m)
    (h : mainStep registry record settings o m e = some o') : Grown o o' := by
  cases e with
  | enter now =>
    simp only [mainStep] at h
    split at h
    · obtain ⟨hinventory, hsaved⟩ := @sameInventory_enter record settings o m _ now
      exact Option.some.inj h ▸ .of_main main hinventory.endpoints hsaved
    · cases h
  | discovered found =>
    simp only [mainStep] at h
    split at h
    · rw [← Option.some.inj h]
      obtain ⟨hendpoints, hsaved⟩ := @phase_discovery_spec settings o m found
      refine ⟨fun id hid ↦ ?_, fun m' hm' ep hep ↦ Or.inr (lists_of_mem ?_)⟩
      · rw [Lists, hendpoints, List.map_append]
        exact List.mem_append_left _ hid
      · rw [hendpoints]
        exact List.mem_append_right _ (hsaved m' hm' ▸ hep)
    · cases h
  | plan multi strategy order =>
    simp only [mainStep] at h
    split at h
    · rw [← Option.some.inj h, _phase_planning]
      exact .of_main main (sameReport_freeze o).endpoints fun m' hm' ↦ Option.some.inj hm' ▸ rfl
    · cases h
  | policy =>
    simp only [mainStep] at h
    split at h
    · rw [← Option.some.inj h]
      have hfrozen : (judgeAll registry record settings o (underReview settings o m)).freeze.endpoints =
          o.endpoints := (sameReport_freeze _).endpoints
      rw [_phase_policy]
      dsimp only
      split_ifs <;> exact .of_main main hfrozen fun m' hm' ↦ Option.some.inj hm' ▸ rfl
    · cases h
  | poll expired =>
    simp only [mainStep] at h
    split at h
    · rw [← Option.some.inj h, _await_step_approvals]
      split <;> exact .of_main main rfl fun m' hm' ↦ Option.some.inj hm' ▸ rfl
    · cases h
  | coordinate elects_stop =>
    simp only [mainStep] at h
    split at h
    · rw [← Option.some.inj h, coordinate]
      split
      · exact grown_endPhase main rfl rfl
      · exact grown_setMain main rfl rfl
    · cases h
  | dispatch =>
    simp only [mainStep] at h
    split at h
    · obtain ⟨tasks, -, rfl⟩ := Option.map_eq_some_iff.1 h
      exact grown_setMain main rfl (sameReport_freeze o).endpoints
    · cases h
  | deliver i noticed =>
    simp only [mainStep] at h
    split at h
    · obtain ⟨⟨t, error⟩, -, rfl⟩ := Option.map_eq_some_iff.1 h
      dsimp only
      split
      · refine grown_endPhase main rfl ?_
        cases m.client <;> rfl
      · exact grown_setMain main rfl rfl
    · obtain ⟨⟨t, error⟩, -, rfl⟩ := Option.map_eq_some_iff.1 h
      dsimp only
      split
      · exact grown_setMain main rfl rfl
      · exact .of_eq rfl rfl
    · cases h
  | drained =>
    simp only [mainStep] at h
    split at h
    · split at h
      · exact Option.some.inj h ▸ grown_setMain main rfl rfl
      · cases h
    · split at h
      · exact Option.some.inj h ▸ grown_setMain main rfl rfl
      · cases h
    · cases h
  | retry noticed =>
    simp only [mainStep] at h
    split at h
    · rw [retry.eq_def] at h
      split at h
      · obtain ⟨t, -, rfl⟩ := Option.map_eq_some_iff.1 h
        exact grown_setMain main rfl rfl
      · split at h
        · exact Option.some.inj h ▸ grown_setMain main rfl rfl
        · exact Option.some.inj h ▸ grown_setMain main rfl rfl
    · cases h
  | retried =>
    simp only [mainStep] at h
    split at h
    · rw [retried] at h
      split at h
      · split at h
        · exact Option.some.inj h ▸ grown_setMain main rfl rfl
        · cases h
      · cases h
    · cases h
  | replan answer =>
    simp only [mainStep] at h
    split at h
    · rw [_maybe_replan] at h
      split at h
      · cases h
      split at h
      · exact Option.some.inj h ▸ grown_endPhase main rfl rfl
      · obtain ⟨tasks, -, rfl⟩ := Option.map_eq_some_iff.1 h
        exact grown_setMain main rfl rfl
    · cases h
  | validated =>
    simp only [mainStep] at h
    split at h
    · exact Option.some.inj h ▸ grown_endPhase main rfl rfl
    · cases h
  | scored =>
    simp only [mainStep] at h
    split at h
    · obtain ⟨coverage, hscore⟩ := _phase_score_eq registry record o
      rw [← Option.some.inj h, hscore]
      exact .of_main main rfl fun m' hm' ↦ Option.some.inj hm' ▸ rfl
    · cases h
  | send | reported | cancelled =>
    simp only [mainStep] at h
    split at h
    · exact Option.some.inj h ▸ .of_main main rfl
        fun m' hm' ↦ by first | exact Option.some.inj hm' ▸ rfl | exact Option.some.inj (hm'.symm.trans main) ▸ rfl
    · cases h
  | raise error =>
    simp only [mainStep] at h
    split at h
    · cases h
    · rw [← Option.some.inj h, raise]
      split
      · exact .of_main main (closeMain_endpoints o m) fun m' hm' ↦ by cases hm'
      · exact .of_main main rfl fun m' hm' ↦ Option.some.inj hm' ▸ rfl
  | leave =>
    simp only [mainStep] at h
    split at h
    · exact Option.some.inj h ▸ .of_main main (closeMain_endpoints o m) fun m' hm' ↦ by cases hm'
    · cases h

/-- Only the sweep takes endpoints away. -/
theorem grown_of_step (he : e ≠ .restart) (h : step registry record settings o e = some o') :
    Grown o o' := by
  cases e with
  | main e =>
    obtain ⟨m, main, h⟩ := Option.bind_eq_some_iff.1 h
    exact grown_mainStep main h
  | execution j e =>
    obtain ⟨x, -, h⟩ := Option.bind_eq_some_iff.1 h
    have hmain := (sameRun_executionStep h).main
    by_cases hscored : e = .scored
    · subst hscored
      simp only [executionStep] at h
      split at h
      · obtain ⟨coverage, hscore⟩ := _phase_score_eq registry record o
        rw [← Option.some.inj h] at hmain ⊢
        exact .of_eq (by rw [hscore]; rfl) hmain
      · cases h
    · exact .of_eq (sameReport_executionStep hscored h).endpoints hmain
  | task i e =>
    obtain ⟨t, -, h⟩ := Option.bind_eq_some_iff.1 h
    exact .of_eq (sameReport_taskStep h).endpoints (sameRun_taskStep h).main
  | start reset =>
    rw [← Option.some.inj h, start]
    split
    · refine Grown.trans ?_ (grown_start_assessment _)
      cases reset <;> exact .of_eq rfl rfl
    · exact .of_eq rfl rfl
  | cancel =>
    rw [← Option.some.inj h, cancel]
    dsimp only
    split_ifs <;> exact .of_eq rfl rfl
  | cancel_all =>
    rw [← Option.some.inj h, cancel_all]
    split <;> exact .of_eq rfl rfl
  | approve step_id user_id note =>
    rw [← Option.some.inj h, approve_step]
    dsimp only
    split
    · split
      · refine Grown.trans ?_ (grown_start_approved_steps _ _)
        exact .of_eq rfl rfl
      · refine Grown.trans ?_ (grown_resume_if_parked _)
        exact .of_eq rfl rfl
    · exact .of_eq rfl rfl
  | deny step_id user_id note =>
    rw [← Option.some.inj h, deny_step]
    dsimp only
    split
    · refine Grown.trans ?_ (grown_resume_if_parked _)
      exact .of_eq rfl rfl
    · exact .of_eq rfl rfl
  | triage => exact Option.some.inj h ▸ .of_eq rfl rfl
  | ingest found => exact Option.some.inj h ▸ grown_addEndpoints o found
  | register skills => exact Option.some.inj h ▸ .of_eq rfl rfl
  | restart => exact absurd rfl he

/-! ### Where references come from -/

/-- Where the endpoint of a step that is stored afterwards comes from. -/
inductive Source (settings : Settings) (o : Orchestrator) : ℕ → Prop
  | kept {s : PlanStep} (mem : s ∈ o.steps) : Source settings o s.endpoint_id
  | planned {m : Main} {ep : Endpoint} (main : o.main = some m) (mem : ep ∈ offered settings o m) :
    Source settings o ep.id
  | gap {ep : Endpoint} (mem : ep ∈ o.endpoints) : Source settings o ep.id

omit u in
/-- Rewriting rows keeps the endpoint they name. -/
theorem Source.of_map {f : PlanStep → PlanStep} (hf : ∀ s, (f s).endpoint_id = s.endpoint_id)
    {s : PlanStep} (hs : s ∈ o.steps.map f) : Source settings o s.endpoint_id := by
  obtain ⟨r, hr, rfl⟩ := List.mem_map.1 hs
  exact hf r ▸ .kept hr

/-- A planned step is for an endpoint that planning was offered. -/
theorem planOf_endpoint {multi : Bool} {strategy : String} {order : Option (List String)} {p : PlannedStep}
    (hp : p ∈ planOf registry record settings o m multi strategy order) :
    ∃ ep ∈ offered settings o m, ep.id = p.endpoint_id := by
  rw [planOf, (perm_rerank_plan _ _).mem_iff, (perm_apply_strategy _ _).mem_iff, mem_build_plan_iff] at hp
  obtain ⟨ev, hev, check, -, -, rfl⟩ := hp
  obtain ⟨ep, hep, rfl⟩ := List.mem_map.1 hev
  exact ⟨ep, hep, rfl⟩

omit u in
/-- An incremental run plans for fewer endpoints. -/
theorem offered_subset (o : Orchestrator) (m : Main) :
    offered settings o m ⊆ planningInput settings o m := by
  rw [offered_eq, planEndpoints]
  split
  · split
    · exact List.filter_subset_self _
    · exact List.Subset.refl _
  · exact List.Subset.refl _

/-- A gap is found on a stored endpoint. -/
theorem gapRows_endpoint {classes : List String} {s : PlanStep}
    (hs : s ∈ gapRows registry record settings o m classes) : ∃ ep ∈ o.endpoints, ep.id = s.endpoint_id := by
  obtain ⟨r, hr, i, -, rfl⟩ := mem_numbered hs
  obtain ⟨gap, hgap, rfl⟩ := List.mem_map.1 hr
  obtain ⟨ep, hep, hgap⟩ := List.mem_flatMap.1 (List.mem_of_mem_take hgap)
  obtain ⟨cclass, -, hgap⟩ := List.mem_filterMap.1 hgap
  refine ⟨ep, hep, ?_⟩
  split at hgap
  · cases hgap
  · obtain ⟨check, -, hgap⟩ := Option.bind_eq_some_iff.1 hgap
    split at hgap
    · rw [← Option.some.inj hgap]
      rfl
    · cases hgap

theorem source_of_move (h : Move registry record settings o e o') {s : PlanStep} (hs : s ∈ o'.steps) :
    Source settings o s.endpoint_id := by
  cases h with
  | control control => exact .kept (control.steps ▸ hs)
  | @planned m multi strategy order main pc =>
    rw [_phase_planning, freeze_eq] at hs
    rcases List.mem_append.1 hs with hs | hs
    · exact .kept hs
    · obtain ⟨r, hr, i, -, rfl⟩ := mem_numbered hs
      obtain ⟨p, hp, rfl⟩ := List.mem_map.1 hr
      obtain ⟨ep, hep, hid⟩ := planOf_endpoint hp
      show Source settings o p.endpoint_id
      exact hid ▸ .planned main hep
  | @judged m main pc =>
    rw [phase_policy_steps] at hs
    refine .of_map (fun s ↦ ?_) hs
    split
    · exact (judge_same registry (_make_guard record settings) settings o._declaratives s).2.1
    · rfl
  | polled main pc =>
    rw [await_step_approvals_steps] at hs
    exact .kept hs
  | takes main pc => exact .kept hs
  | dispatched main pc agents =>
    rw [freeze_eq] at hs
    exact .kept hs
  | settled task state control =>
    rw [control.steps] at hs
    exact .of_map (fun s ↦ by split <;> rfl) hs
  | replanned main pc goes order agents =>
    rcases List.mem_append.1 hs with hs | hs
    · exact .kept hs
    · obtain ⟨ep, hep, hid⟩ := gapRows_endpoint hs
      exact hid ▸ .gap hep
  | began execution =>
    unfold execute_approved_steps at hs
    dsimp only at hs
    split at hs
    · exact .kept hs
    split at hs
    · exact .of_map (fun s ↦ by split <;> rfl) hs
    · exact .kept hs
  | executed execution pc agents =>
    rw [freeze_eq] at hs
    exact .kept hs
  | invoked task control => exact .kept (control.steps ▸ hs)
  | approved held control | denied held control =>
    rw [control.steps] at hs
    exact .of_map (fun s ↦ by split <;> rfl) hs
  | cancelled cancels control => exact .kept (control.steps ▸ hs)
  | cleared control =>
    rw [control.steps] at hs
    cases hs

/-! ### Where copies come from -/

omit u in
/-- The task of the run takes up copies, and no execution does. -/
theorem copies_of_main {r : PlanStep} {m' : Main} (hr : r ∈ o'.copies) (main' : o'.main = some m')
    (executions : o'.executions = o.executions) : r ∈ m'.copies ∨ r ∈ o.copies := by
  rcases mem_copies.1 hr with ⟨m, hm, hr⟩ | ⟨x, hx, hr⟩
  · rw [Option.some.inj (main'.symm.trans hm)]
    exact Or.inl hr
  · exact Or.inr (mem_copies.2 (Or.inr ⟨x, executions ▸ hx, hr⟩))

omit u in
/-- An execution takes up copies, and the task of the run does not. -/
theorem copies_of_execution {r : PlanStep} {j : ℕ} {x' : Execution} (hr : r ∈ o'.copies)
    (executions : o'.executions = o.executions.set j x') (main : o'.main = o.main) :
    r ∈ x'.pc.copies ∨ r ∈ o.copies := by
  rcases mem_copies.1 hr with ⟨m, hm, hr⟩ | ⟨x, hx, hr⟩
  · exact Or.inr (mem_copies.2 (Or.inl ⟨m, main ▸ hm, hr⟩))
  · rw [executions] at hx
    rcases List.mem_or_eq_of_mem_set hx with hx | rfl
    · exact Or.inr (mem_copies.2 (Or.inr ⟨x, hx, hr⟩))
    · exact Or.inl hr

/-- **A copy that is held afterwards was held before, or is stored.** -/
theorem copies_of_move (h : Move registry record settings o e o') {r : PlanStep} (hr : r ∈ o'.copies) :
    r ∈ o.copies ∨ r ∈ o'.steps := by
  have hallowed : ∀ {m : Main}, o.main = some m → ∀ {r}, r ∈ m.allowed → r ∈ o.copies :=
    fun main _ hr ↦ mem_copies.2 (Or.inl ⟨_, main, List.mem_append_left _ hr⟩)
  -- a phase that holds only what policy returned
  have hquiet : ∀ {m m' : Main}, o.main = some m → o'.main = some m' → m'.copies ⊆ m.allowed →
      o'.executions = o.executions → r ∈ o.copies := fun main main' hcopies hexecutions ↦
    (copies_of_main hr main' hexecutions).elim (fun hr ↦ hallowed main (hcopies hr)) id
  cases h with
  | control control => exact Or.inl (control.copies hr)
  | @planned m multi strategy order main pc =>
    refine Or.inl (hquiet main rfl ?_ (by rw [_phase_planning, freeze_eq]; rfl))
    exact List.append_subset.2 ⟨List.Subset.refl _, List.nil_subset _⟩
  | @judged m main pc =>
    have hexec : (judgeAll registry record settings o (underReview settings o m)).freeze.executions =
        o.executions := by
      rw [freeze_judgeAll, freeze_eq]
    have hnil : ∀ pc' : MainPc, pc'.copies = [] → Main.copies { m with pc := pc' } ⊆ m.allowed :=
      fun pc' hpc ↦ List.append_subset.2 ⟨List.Subset.refl _, hpc ▸ List.nil_subset _⟩
    unfold _phase_policy at hr hquiet ⊢
    dsimp only at hr hquiet ⊢
    split_ifs at hr hquiet ⊢
    · exact Or.inl (hquiet main rfl (hnil _ rfl) hexec)
    · exact Or.inl (hquiet main rfl (hnil _ rfl) hexec)
    · refine (copies_of_main (o := o) hr rfl hexec).symm.imp_right fun hr ↦ ?_
      exact List.mem_of_mem_filter ((List.mem_append.1 hr).resolve_right List.not_mem_nil)
    · exact Or.inl (hquiet main rfl (hnil _ rfl) hexec)
  | @polled m approved pending expired main pc =>
    unfold _await_step_approvals at hr hquiet ⊢
    dsimp only at hr hquiet ⊢
    split_ifs at hr hquiet ⊢
    · refine (copies_of_main (o := o) hr rfl rfl).symm.imp_right fun hr ↦ ?_
      exact List.mem_of_mem_filter ((List.mem_append.1 hr).resolve_right List.not_mem_nil)
    · refine Or.inl (hquiet main rfl ?_ rfl)
      exact List.append_subset.2 ⟨List.Subset.refl _, List.nil_subset _⟩
  | @takes m main pc =>
    rcases copies_of_main (o := o) hr rfl rfl with hr | hr
    · rcases List.mem_append.1 hr with hr | hr
      · exact Or.inl (hallowed main hr)
      · change r ∈ toExecute settings o m at hr
        rw [toExecute] at hr
        split at hr
        · exact Or.inr (List.mem_of_mem_filter hr)
        · exact Or.inl (hallowed main hr)
    · exact Or.inl hr
  | @dispatched m steps tasks main pc agents =>
    refine Or.inl (hquiet main rfl ?_ (by rw [freeze_eq]; rfl))
    exact List.append_subset.2 ⟨List.Subset.refl _, List.nil_subset _⟩
  | settled task state control => exact Or.inl (control.copies hr)
  | @replanned m iteration answer tasks main pc goes order agents =>
    refine Or.inl (hquiet main rfl ?_ rfl)
    exact List.append_subset.2 ⟨List.Subset.refl _, List.nil_subset _⟩
  | @began j x now execution =>
    unfold execute_approved_steps at hr ⊢
    dsimp only at hr ⊢
    split_ifs at hr ⊢
    · exact Or.inl ((copies_of_execution (o := o) hr rfl rfl).resolve_left List.not_mem_nil)
    · refine (copies_of_execution (o := o) hr rfl rfl).symm.imp_right fun hr ↦ ?_
      exact List.mem_of_mem_filter (List.mem_of_mem_filter hr)
    · exact Or.inl ((copies_of_execution (o := o) hr rfl rfl).resolve_left List.not_mem_nil)
  | @executed j x steps tasks execution pc agents =>
    rcases copies_of_execution (o := o.freeze.spawn tasks) hr rfl rfl with hr | hr
    · cases hr
    · rw [freeze_eq] at hr
      exact Or.inl hr
  | invoked task control => exact Or.inl (control.copies hr)
  | approved held control | denied held control => exact Or.inl (control.copies hr)
  | cancelled cancels control => exact Or.inl (control.copies hr)
  | cleared control => exact Or.inl (control.copies hr)

/-! ### Runs -/

omit u in
/-- What planning is offered is stored, for both drivers. -/
theorem Anchored.lists (hA : o.Anchored) {id : ℕ} (h : Source settings o id) : o.Lists id := by
  cases h with
  | kept mem => exact hA.steps _ mem
  | planned main mem =>
    have hinput := offered_subset o _ mem
    rw [planningInput] at hinput
    split at hinput
    · exact lists_of_mem hinput
    · exact hA.saved _ main _ hinput
  | gap mem => exact lists_of_mem mem

omit u in
/-- A row of the report is for a stored endpoint, when scoring writes it. -/
theorem lists_of_phase_score {c : Coverage} (hc : c ∈ (_phase_score registry record o).coverage) :
    c ∈ o.coverage ∨ o.Lists c.endpoint_id := by
  by_cases hnone : o.coverage = []
  · rw [_phase_score, if_neg (not_not.2 hnone)] at hc
    obtain ⟨ep, hep, hc⟩ := List.mem_flatMap.1 hc
    obtain ⟨cclass, -, rfl⟩ := List.mem_map.1 hc
    exact Or.inr (lists_of_mem hep)
  · exact Or.inl (phase_score_of_coverage hnone ▸ hc)

/-- Rows of the report stay, or are written for stored endpoints. -/
theorem coverage_of_step (h : step registry record settings o e = some o') {c : Coverage}
    (hc : c ∈ o'.coverage) : c ∈ o.coverage ∨ o.Lists c.endpoint_id := by
  cases reportMove_of_step h with
  | same scorer same => exact Or.inl (same.coverage ▸ hc)
  | added found scorer same =>
    obtain ⟨endpoints, nextId, -, heq⟩ := addEndpoints_eq o found
    rw [same.coverage, heq] at hc
    exact Or.inl hc
  | scored scorer steps same =>
    rw [same.coverage] at hc
    exact lists_of_phase_score hc
  | swept scorer endpoints coverage =>
    rw [coverage] at hc
    cases hc

omit u in
/-- **A restart**: the run that is launched has nothing from discovery and holds nothing, and the rows are
as they were, or all gone. -/
theorem Anchored.restart (hA : o.Anchored) : (resume_incomplete_assessments settings o.crash).Anchored := by
  have hlaunch : ∀ {o : Orchestrator}, o.main = none → o.executions = [] →
      (∀ s ∈ o.steps, o.Lists s.endpoint_id) → (∀ c ∈ o.coverage, o.Lists c.endpoint_id) →
      (start_assessment settings o).Anchored := by
    intro o main executions steps coverage
    rw [start_assessment, main, if_neg (by decide)]
    refine ⟨steps, fun r hr ↦ ?_, coverage, fun m hm ep hep ↦ ?_⟩
    · rcases mem_copies.1 hr with ⟨m, hm, hr⟩ | ⟨x, hx, -⟩
      · rw [← Option.some.inj hm] at hr
        cases hr
      · have hx' : x ∈ o.executions := hx
        rw [executions] at hx'
        cases hx'
    · rw [← Option.some.inj hm] at hep
      cases hep
  rw [resume_incomplete_assessments]
  split
  · exact ⟨hA.steps, fun r hr ↦ (by cases hr), hA.coverage, fun m hm ↦ (by cases hm)⟩
  split
  · exact hlaunch rfl rfl hA.steps hA.coverage
  · exact hlaunch rfl rfl (fun s hs ↦ (by cases hs)) fun c hc ↦ (by cases hc)

/-- **The step lemma.** -/
theorem Anchored.step (hI : Inv registry record settings bookkeeping o) (hA : o.Anchored)
    (h : step registry record settings o e = some o') : o'.Anchored := by
  by_cases he : e = .restart
  · subst he
    exact Option.some.inj h ▸ hA.restart
  have hmove := move_of_step h
  have hgrown := grown_of_step he h
  refine ⟨fun s hs ↦ ?_, fun r hr ↦ ?_, fun c hc ↦ ?_, fun m' hm' ep hep ↦ ?_⟩
  · exact hgrown.lists _ (hA.lists (source_of_move hmove hs))
  · rcases copies_of_move hmove hr with hr | hr
    · exact (writes_of_move hI hmove).stays he (hA.held r hr)
    · exact ⟨r, hr, rfl⟩
  · exact hgrown.lists _ ((coverage_of_step h hc).elim (hA.coverage c) id)
  · rcases hgrown.saved m' hm' ep hep with ⟨m, hm, hep⟩ | hlists
    · exact hgrown.lists _ (hA.saved m hm ep hep)
    · exact hlists

/-- Everything that is carried along a run. -/
theorem anchored_of_run {org_id : ℕ} {requested : List String} {incremental : Bool}
    {prev : Option (List Text)} {es : List EngineEvent}
    (h : Machine.run (step registry record settings) (created org_id requested incremental prev) es =
      some o) : o.Catalogued ∧ o.Anchored := by
  have hcreated : (created org_id requested incremental prev).Catalogued ∧
      (created org_id requested incremental prev).Anchored :=
    ⟨⟨fun ep hep ↦ (by cases hep), List.nodup_nil⟩, fun s hs ↦ (by cases hs), fun r hr ↦ (by cases hr),
      fun c hc ↦ (by cases hc), fun m hm ↦ (by cases hm)⟩
  refine (Machine.inv_of_run
    (I := fun o ↦ Inv registry record settings bookkeeping o ∧ o.Catalogued ∧ o.Anchored)
    (fun ⟨hI, hC, hA⟩ hs ↦ ?_) h ⟨Inv.created .., hcreated⟩).2
  exact ⟨hI.step (respects_bookkeeping _ _) hs, CoverageLedger.catalogued_of_step hC hs, hA.step hI hs⟩

omit u in
/-- **Agents can be made** for steps whose endpoints are stored. -/
theorem agentsFor_isSome (declaratives : List DeclarativeCheck) (client : ℕ) {steps : List PlanStep}
    (h : ∀ s ∈ steps, o.Lists s.endpoint_id) :
    (agentsFor registry o declaratives client steps).isSome = true := by
  induction steps with
  | nil => rfl
  | cons s steps ih =>
    obtain ⟨tasks, htasks⟩ := Option.isSome_iff_exists.1 (ih fun r hr ↦ h r (List.mem_cons_of_mem s hr))
    obtain ⟨ep, hep, hid⟩ := List.mem_map.1 (h s List.mem_cons_self)
    have hfound : (o.endpoints.find? (·.id == s.endpoint_id)).isSome = true :=
      List.find?_isSome.2 ⟨ep, hep, beq_iff_eq.2 hid⟩
    obtain ⟨ep', hep'⟩ := Option.isSome_iff_exists.1 hfound
    rw [agentsFor, htasks, hep']
    dsimp only
    split <;> rfl

/-- **No reference dangles**, in any run. So the main pass, an iteration of replanning and an execution of
approved steps find the endpoints of all their steps, and go on. -/
theorem referential_of_run {org_id : ℕ} {requested : List String} {incremental : Bool}
    {prev : Option (List Text)} {es : List EngineEvent}
    (h : Machine.run (step registry record settings) (created org_id requested incremental prev) es =
      some o) :
    o.Referential ∧
      (∀ m ∈ o.main, ∀ steps, m.pc = .loggingIn steps →
        (step registry record settings o (.main .dispatch)).isSome = true) ∧
      (∀ m ∈ o.main, ∀ iteration answer, m.pc = .replanning iteration →
        answer.classes.Perm record.allowed_check_classes.dedup →
        (step registry record settings o (.main (.replan answer))).isSome = true) ∧
      ∀ j x steps, o.executions[j]? = some x → x.pc = .loggingIn steps →
        (step registry record settings o (.execution j .dispatch)).isSome = true := by
  obtain ⟨hC, hA⟩ := anchored_of_run h
  have hkeyed := keyed_of_run h
  have hcopies : ∀ r ∈ o.copies, o.Lists r.endpoint_id := by
    intro r hr
    obtain ⟨s, hs, hid⟩ := hA.held r hr
    have hkey := (hkeyed r (mem_holders.2 (Or.inl hr))).2 s hs hid
    have hendpoint : s.endpoint_id = r.endpoint_id := congrArg Prod.fst hkey
    exact hendpoint ▸ hA.steps s hs
  refine ⟨⟨hC.nodup, hA.steps, hcopies, hA.coverage⟩, fun m main steps pc ↦ ?_,
    fun m main iteration answer pc order ↦ ?_, fun j x steps execution pc ↦ ?_⟩
  · have hsteps : ∀ s ∈ steps, o.Lists s.endpoint_id := fun s hs ↦
      hcopies s (mem_copies.2 (Or.inl ⟨m, main, List.mem_append_right _ (by rw [pc]; exact hs)⟩))
    rw [step, main, Option.bind_some]
    simp only [mainStep, pc, dispatch, Option.isSome_map]
    exact agentsFor_isSome _ _ hsteps
  · rw [step, main, Option.bind_some]
    simp only [mainStep, pc, _maybe_replan, List.isPerm_iff.2 order, not_true_eq_false, if_false]
    split
    · rfl
    · rw [Option.isSome_map]
      refine agentsFor_isSome _ _ fun s hs ↦ ?_
      obtain ⟨ep, hep, hid⟩ := gapRows_endpoint hs
      exact hid ▸ lists_of_mem hep
  · have hsteps : ∀ s ∈ steps, o.Lists s.endpoint_id := fun s hs ↦
      hcopies s (mem_copies.2 (Or.inr ⟨x, List.mem_of_getElem? execution, by rw [pc]; exact hs⟩))
    rw [step, execution, Option.bind_some]
    simp only [executionStep, pc, executionDispatch, Option.isSome_map]
    exact agentsFor_isSome _ _ hsteps

end Orchestrator

section

attribute [local instance] asciiTables

/-- A run that has logged in and holds the step it has planned. -/
theorem referential_of_run_loggedIn : ∃ o, Machine.run
      (Orchestrator.step builtinRegistry (scanRecord ["security_headers"]) {})
      (.created 1 [] false none)
      (throughPolicy [sampleEndpoint] ++ [.main (.enter 0), .main (.coordinate false)]) = some o ∧
    o.copies ≠ [] ∧ o.Referential ∧ (Orchestrator.step builtinRegistry (scanRecord ["security_headers"]) {} o
      (.main .dispatch)).isSome = true := by
  obtain ⟨o, h, hcopies, hmain⟩ : ∃ o, Machine.run
      (Orchestrator.step builtinRegistry (scanRecord ["security_headers"]) {})
      (.created 1 [] false none)
      (throughPolicy [sampleEndpoint] ++ [.main (.enter 0), .main (.coordinate false)]) = some o ∧
      o.copies ≠ [] ∧ o.main.any (fun m ↦ decide (m.pc = .loggingIn m.allowed)) = true := by
    decide +kernel
  obtain ⟨m, main, hpc⟩ := (Option.any_eq_true ..).1 hmain
  obtain ⟨hreferential, hdispatch, -⟩ := Orchestrator.referential_of_run h
  exact ⟨o, h, hcopies, hreferential, hdispatch m main _ (of_decide_eq_true hpc)⟩

end

end Sentrik
