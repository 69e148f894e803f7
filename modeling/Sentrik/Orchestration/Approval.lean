import Sentrik.Orchestration.Clearance

/-!
# Per-action approval

With `step_approval_required`, a check that changes state or is invasive waits for an operator. The
gate is in the policy phase. The wait, the approve endpoint and the executions after the run all go
through the stored status, which only an operator turns from held to approved.

Replanning does not go through the gate: it stores its steps as approved. `GapsNeedNoApproval` says
when that is harmless.
-/

namespace Sentrik

/-- A check that needs approval may run for a step whose approval is recorded. -/
def approvalClearance : Clearance where
  clear A id c := _step_needs_approval c = true → id ∈ A
  mono hAB h hneeds := hAB (h hneeds)
  wanted _ := True

namespace Orchestrator

variable [u : UnicodeTables]

/-- Where replanning is about to schedule gaps, the check picked for each class that may have one needs
no approval, as far as the guard permits it. -/
def GapsNeedNoApproval (registry : _Registry) (record : AuthorizationRecord) (settings : Settings)
    (o : Orchestrator) (e : EngineEvent) : Prop :=
  ∀ cclass ∈ record.allowed_check_classes, ReplansFor record settings o e cclass →
    ∀ b ∈ _pick_check registry cclass,
      ((_make_guard record settings).check_class_allowed cclass b.intensity).allowed = true →
        _step_needs_approval (.builtin b) = false

instance (registry : _Registry) (record : AuthorizationRecord) (settings : Settings)
    (o : Orchestrator) (e : EngineEvent) :
    Decidable (GapsNeedNoApproval registry record settings o e) :=
  inferInstanceAs (Decidable (∀ cclass ∈ record.allowed_check_classes, _))

variable {registry : _Registry} {record : AuthorizationRecord} {settings : Settings}

theorem respects_of_gapsNeedNoApproval (hreq : settings.step_approval_required = true)
    {o : Orchestrator} {e : EngineEvent} (hgaps : GapsNeedNoApproval registry record settings o e) :
    Respects registry record settings approvalClearance o e := by
  refine ⟨fun multi _ m _ ev _ p _ _ ↦ ⟨trivial, fun c _ id _ ↦ ⟨fun hfree hneeds ↦ ?_, fun _ ↦ ?_⟩⟩,
    fun cclass hcclass hreplans b hpick hallowed ↦ ⟨trivial, fun id hneeds ↦ ?_⟩⟩
  · -- the gate holds what needs approval
    rw [hfree hreq] at hneeds
    cases hneeds
  · exact List.mem_singleton_self id
  · rw [hgaps cclass hcclass hreplans b hpick hallowed] at hneeds
    cases hneeds

/-- **Per-action approval is not bypassed**, in every run in which replanning picks no check that needs
approval: such a check runs only on the endpoint of a step whose approval is recorded, and
no check runs for a step that is held or denied. -/
theorem invocations_approved (hreq : settings.step_approval_required = true) {org_id : ℕ}
    {requested : List String} {incremental : Bool} {prev : Option (List Text)}
    {es : List EngineEvent} {o : Orchestrator}
    (hes : Machine.Along (step registry record settings) (GapsNeedNoApproval registry record settings)
      (created org_id requested incremental prev) es)
    (h : Machine.run (step registry record settings) (created org_id requested incremental prev) es =
      some o) :
    ∀ v ∈ o.invocations, v.endpoint.id = v.step.endpoint_id ∧
      (_step_needs_approval v.check = true → v.step.id ∈ o.approvals) ∧
        ∀ r ∈ o.steps, r.id = v.step.id →
          r.status ≠ .awaiting_approval ∧ r.status ≠ .denied := by
  have hI := inv_of_respects (hes.mono fun _ _ ↦ respects_of_gapsNeedNoApproval hreq) h
  intro v hv
  obtain ⟨hclear, ⟨-, hreleased⟩, hendpoint⟩ := hI.invocations v hv
  refine ⟨hendpoint, hclear, fun r hr hid ↦ ?_⟩
  have hstatus := hreleased r hr hid
  constructor <;> intro hne <;> rw [hne] at hstatus <;> cases hstatus

end Orchestrator

section

attribute [local instance] asciiTables

/-- A registered check that changes state, the only one of its class. -/
def gatedRegistry : _Registry :=
  builtinRegistry.register { name := "authz.revoke", check_class := .AUTHZ, state_changing := true }

/-- A parked wait, an operator's decision on the held step, and the main pass. -/
def decidedRun (decision : EngineEvent) : List EngineEvent :=
  throughPolicy [sampleEndpoint] ++ [decision, .main (.poll true)] ++ throughDispatch ++ runAgent 0

theorem invocations_approved_operator :
    ∃ o, Machine.run
        (Orchestrator.step gatedRegistry (scanRecord ["authz"]) {})
        (.created 1 [] false none) (decidedRun (.approve 1 7 "ok")) = some o ∧
      o.invocations.length = 1 ∧
      ∀ v ∈ o.invocations, v.endpoint.id = v.step.endpoint_id ∧
        (_step_needs_approval v.check = true → v.step.id ∈ o.approvals) ∧
          ∀ r ∈ o.steps, r.id = v.step.id →
            r.status ≠ .awaiting_approval ∧ r.status ≠ .denied := by
  obtain ⟨o, ho, hlen⟩ : ∃ o, Machine.run
      (Orchestrator.step gatedRegistry (scanRecord ["authz"]) {}) (.created 1 [] false none)
      (decidedRun (.approve 1 7 "ok")) = some o ∧ o.invocations.length = 1 := by
    decide +kernel
  exact ⟨o, ho, hlen, Orchestrator.invocations_approved rfl (by decide +kernel) ho⟩

/-- The operator denies the state-changing step; replanning runs its check on the same endpoint, and no
approval was ever recorded. -/
theorem deniedStep_runs :
    ∃ o, Machine.run
        (Orchestrator.step gatedRegistry (scanRecord ["security_headers", "authz"]) {})
        (.created 1 [] false none)
        (decidedRun (.deny 1 7 "no") ++ throughReplan ["security_headers", "authz"] ++
          runAgent 1) = some o ∧
      o.approvals = [] ∧ o.denials = [1] ∧
      ∃ v ∈ o.invocations, _step_needs_approval v.check = true ∧
        ∃ r ∈ o.steps, r.status = .denied ∧ r.endpoint_id = v.endpoint.id ∧
          r.check_name = v.check.name := by
  decide +kernel

end

end Sentrik
