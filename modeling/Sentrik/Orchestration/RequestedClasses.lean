import Sentrik.Orchestration.Clearance

/-!
# Requested classes bound the run

An assessment may request check classes. Planning intersects them with the classes of the record and
passes the intersection to the planner, which reads the empty set as everything. Replanning takes its
classes from the record alone.

`PlansRequested` says when neither matters: where the intersection is empty, whatever the planner
considers is requested, and so is every class that replanning may find a gap for.
-/

namespace Sentrik

/-- Steps may have a requested class; nothing is said about checks. -/
def requestedClearance (requested : List String) : Clearance where
  clear _ _ _ := True
  mono _ h := h
  wanted cclass := cclass ∈ requested

namespace Orchestrator

theorem effective_subset {record : AuthorizationRecord} {a : Assessment}
    (h : a.requested_check_classes ≠ []) : effective record a ⊆ a.requested_check_classes := by
  rw [effective, if_pos h]
  exact List.filter_subset_self _

variable [u : UnicodeTables]

/-- Where the planner would read an empty set of classes as everything, what it considers is
requested. -/
def PlanRequested (registry : _Registry) (record : AuthorizationRecord) (settings : Settings)
    (o : Orchestrator) (m : Main) (multi : Bool) : Prop :=
  effective record o.assessment = [] → ∀ ev ∈ (offered settings o m).map _endpoint_view,
    ∀ p ∈ allChecks registry o._declaratives,
      Considers [] (_coerce_intensity record.intensity) multi ev p →
        p.check_class ∈ o.assessment.requested_check_classes

instance (registry : _Registry) (record : AuthorizationRecord) (settings : Settings)
    (o : Orchestrator) (m : Main) (multi : Bool) :
    Decidable (PlanRequested registry record settings o m multi) :=
  inferInstanceAs (Decidable (_ → ∀ ev ∈ (offered settings o m).map _endpoint_view, _))

/-- Planning and replanning plan for requested classes only. -/
def PlansRequested (registry : _Registry) (record : AuthorizationRecord) (settings : Settings)
    (o : Orchestrator) (e : EngineEvent) : Prop :=
  (∀ multi ∈ e.planning, ∀ m ∈ o.main, PlanRequested registry record settings o m multi) ∧
    ∀ cclass ∈ record.allowed_check_classes, ReplansFor record settings o e cclass →
      ∀ b ∈ _pick_check registry cclass,
        ((_make_guard record settings).check_class_allowed cclass b.intensity).allowed = true →
          cclass ∈ o.assessment.requested_check_classes

instance (registry : _Registry) (record : AuthorizationRecord) (settings : Settings)
    (o : Orchestrator) (e : EngineEvent) :
    Decidable (PlansRequested registry record settings o e) :=
  inferInstanceAs (Decidable (_ ∧ _))

variable {registry : _Registry} {record : AuthorizationRecord} {settings : Settings}
variable {o o' : Orchestrator}

/-- What passes the filters of planning is requested, given `PlanRequested`. -/
theorem PlanRequested.mem {m : Main} {multi : Bool} {ev : EndpointView} {p : Check}
    (h : PlanRequested registry record settings o m multi)
    (hne : o.assessment.requested_check_classes ≠ [])
    (hev : ev ∈ (offered settings o m).map _endpoint_view)
    (hp : p ∈ allChecks registry o._declaratives)
    (hconsiders : Considers (effective record o.assessment) (_coerce_intensity record.intensity)
      multi ev p) : p.check_class ∈ o.assessment.requested_check_classes := by
  by_cases heff : effective record o.assessment = []
  · exact h heff ev hev p hp (heff ▸ hconsiders)
  · exact effective_subset hne (hconsiders.1 heff)

/-- **One planning pass** stays within the requested classes if and only if `PlanRequested` holds,
whatever strategy and order the brain answers. -/
theorem planOf_requested_iff {m : Main} {multi : Bool} {strategy : String}
    {order : Option (List String)} (hne : o.assessment.requested_check_classes ≠ []) :
    (∀ p ∈ planOf registry record settings o m multi strategy order,
        p.check_class ∈ o.assessment.requested_check_classes) ↔
      PlanRequested registry record settings o m multi := by
  have hmem : ∀ p, p ∈ planOf registry record settings o m multi strategy order ↔ _ := fun p ↦
    ((perm_rerank_plan _ _).mem_iff.trans (perm_apply_strategy _ _).mem_iff).trans mem_build_plan_iff
  constructor
  · intro h heff ev hev p hp hconsiders
    exact h (plannedStep ev p) ((hmem _).2 ⟨ev, hev, p, hp, heff ▸ hconsiders, rfl⟩)
  · intro h q hq
    obtain ⟨ev, hev, p, hp, hconsiders, rfl⟩ := (hmem q).1 hq
    exact h.mem hne hev hp hconsiders

theorem respects_of_plansRequested {e : EngineEvent}
    (hne : o.assessment.requested_check_classes ≠ [])
    (h : PlansRequested registry record settings o e) :
    Respects registry record settings (requestedClearance o.assessment.requested_check_classes)
      o e := by
  refine ⟨fun multi hmulti m hm ev hev p hp hconsiders ↦ ⟨?_, fun _ _ _ _ ↦ ⟨fun _ ↦ trivial, trivial⟩⟩,
    fun cclass hcclass hreplans b hpick hallowed ↦ ⟨?_, fun _ ↦ trivial⟩⟩
  · exact (h.1 multi hmulti m hm).mem hne hev hp hconsiders
  · exact h.2 cclass hcclass hreplans b hpick hallowed

theorem freeze_requested (o : Orchestrator) :
    o.freeze.assessment.requested_check_classes = o.assessment.requested_check_classes := by
  rw [freeze]
  split <;> rfl

/-- The request of an assessment never changes. -/
theorem requested_of_step {e : EngineEvent} (h : step registry record settings o e = some o') :
    o'.assessment.requested_check_classes = o.assessment.requested_check_classes := by
  cases move_of_step h with
  | control control => exact control.requested
  | planned => exact freeze_requested o
  | @judged m =>
    have h := freeze_requested (judgeAll registry record settings o (underReview settings o m))
    unfold _phase_policy
    dsimp only
    split_ifs <;> exact h
  | polled =>
    unfold _await_step_approvals
    dsimp only
    split <;> rfl
  | takes => rfl
  | dispatched => exact freeze_requested o
  | settled task state control => exact control.requested
  | replanned => rfl
  | began =>
    unfold execute_approved_steps
    dsimp only
    split_ifs <;> rfl
  | executed => exact freeze_requested o
  | invoked task control => exact control.requested
  | approved held control => exact control.requested
  | denied held control => exact control.requested
  | cancelled cancels control => exact control.requested
  | cleared control => exact control.requested

/-- **Every step of the plan is of a requested class**, in every run in which planning and replanning
plan for requested classes only. -/
theorem steps_requested {org_id : ℕ} {requested : List String} {incremental : Bool}
    {prev : Option (List Text)} {es : List EngineEvent} (hne : requested ≠ [])
    (hes : Machine.Along (step registry record settings) (PlansRequested registry record settings)
      (created org_id requested incremental prev) es)
    (h : Machine.run (step registry record settings) (created org_id requested incremental prev) es =
      some o) : ∀ r ∈ o.steps, r.check_class ∈ requested := by
  have hI := Machine.inv_of_run_along
    (I := fun o ↦ Inv registry record settings (requestedClearance requested) o ∧
      o.assessment.requested_check_classes = requested)
    (fun ⟨hI, hreq⟩ hC hs ↦ ⟨hI.step (hreq ▸ respects_of_plansRequested (hreq ▸ hne) hC) hs,
      (requested_of_step hs).trans hreq⟩) hes h ⟨.created .., rfl⟩
  exact hI.1.wanted

end Orchestrator

section

attribute [local instance] asciiTables

/-- A complete main pass over one endpoint, and an iteration of replanning. -/
def replannedRun (classes : List String) : List EngineEvent :=
  throughPolicy [sampleEndpoint] ++ throughDispatch ++ runAgent 0 ++ throughReplan classes

theorem steps_requested_overlap :
    ∃ o, Machine.run (Orchestrator.step builtinRegistry (scanRecord ["security_headers"]) {})
        (.created 1 ["security_headers", "xss"] false none) (replannedRun ["security_headers"]) =
          some o ∧
      o.steps.length = 1 ∧ ∀ r ∈ o.steps, r.check_class ∈ ["security_headers", "xss"] := by
  obtain ⟨o, ho, hlen⟩ : ∃ o, Machine.run
      (Orchestrator.step builtinRegistry (scanRecord ["security_headers"]) {})
      (.created 1 ["security_headers", "xss"] false none) (replannedRun ["security_headers"]) =
        some o ∧ o.steps.length = 1 := by
    decide +kernel
  exact ⟨o, ho, hlen, Orchestrator.steps_requested (by decide) (by decide +kernel) ho⟩

/-- Nothing that is requested is authorized, and planning plans for everything: a step of the
authorized class is approved. Where the request overlaps, replanning approves a step of the other
authorized class. -/
theorem unrequestedSteps_approved :
    (∃ o, Machine.run (Orchestrator.step builtinRegistry (scanRecord ["security_headers"]) {})
        (.created 1 ["xss"] false none) (throughPolicy [sampleEndpoint]) = some o ∧
      ∃ r ∈ o.steps, r.status = .approved ∧ r.check_class ∉ ["xss"]) ∧
    ∃ o, Machine.run
        (Orchestrator.step builtinRegistry (scanRecord ["security_headers", "business_logic"]) {})
        (.created 1 ["security_headers"] false none)
        (replannedRun ["security_headers", "business_logic"]) = some o ∧
      ∃ r ∈ o.steps, r.status = .approved ∧ r.check_class ∉ ["security_headers"] := by
  decide +kernel

end

end Sentrik
