import Sentrik.Agents.Registry
import Sentrik.Services.Planning

/-!
# Plan steps and the policy gate

A plan step stores the class and the name of the check it was planned for. Everything later works
from these two strings: policy, execution and replanning each resolve the check **again**, by name,
a built-in check before a declarative one, and by the class only when the name is unknown.

The policy gate judges the class the *step* stores and the intensity of the check it *resolves* to.
-/

namespace Sentrik

/-! ### Steps -/

inductive StepStatus
  | planned | skipped | denied | awaiting_approval | approved | done | errored
  deriving DecidableEq, Repr

/-- The keys of a policy decision, each present once it has been written. -/
structure PolicyDecision where
  allowed : Option Bool := none
  reason : Option String := none
  code : Option String := none
  requires_approval : Option Bool := none
  approval_reason : Option String := none
  approved_by : Option ℕ := none
  approval_note : Option String := none
  denied_by : Option ℕ := none
  denial_note : Option String := none
  post_approval_block : Option String := none
  deriving DecidableEq, Repr

structure PlanStep where
  id : ℕ
  endpoint_id : ℕ
  check_class : String
  check_name : String
  rationale : String
  priority : ℕ
  intensity : String
  status : StepStatus
  policy_decision : PolicyDecision := {}
  deriving DecidableEq, Repr

/-! ### Resolving the check of a step -/

section

variable (registry : _Registry)

def _pick_check (check_class : String) : Option BaseCheck := (registry.by_class check_class).head?

/-- The check to run for a step: by name, falling back to the first built-in one of the class. -/
def _resolve_check (check_name check_class : String) (declaratives : List DeclarativeCheck) :
    Option Check :=
  if check_name = "" then (_pick_check registry check_class).map .builtin
  else
    match registry.get check_name with
    | some builtin => some (.builtin builtin)
    | none =>
      match declaratives.find? (·.name == check_name) with
      | some d => some (.declarative d)
      | none => (_pick_check registry check_class).map .builtin

variable {registry} {name cclass : String} {b : BaseCheck} {declaratives : List DeclarativeCheck}

theorem _pick_check_mem (h : _pick_check registry cclass = some b) :
    b ∈ registry.all ∧ b.check_class.value = cclass :=
  _Registry.mem_by_class.1 (List.mem_of_mem_head? h)

/-- The name of a built-in check resolves the same way whatever the declarative checks are. -/
theorem _resolve_check_builtin (hb : b ∈ registry.all) (hname : b.name = name)
    (declaratives : List DeclarativeCheck) :
    _resolve_check registry name cclass declaratives =
      if name = "" then (_pick_check registry cclass).map .builtin else some (.builtin b) := by
  rw [_resolve_check]
  split
  · rfl
  · rw [_Registry.get_eq_some_iff.2 ⟨hb, hname⟩]

/-- A step for a built-in check resolves to a check of its class. -/
theorem _resolve_check_builtin_class {c : Check} (hb : b ∈ registry.all) (hname : b.name = name)
    (h : _resolve_check registry name b.check_class.value declaratives = some c) :
    c.check_class = b.check_class.value := by
  rw [_resolve_check_builtin hb hname] at h
  split at h
  · obtain ⟨b', hb', rfl⟩ := Option.map_eq_some_iff.1 h
    exact (_pick_check_mem hb').2
  · rw [← Option.some.inj h, Check.check_class]

/-- The check picked for a class is the one its name resolves to. -/
theorem _resolve_check_picked (h : _pick_check registry cclass = some b) :
    _resolve_check registry b.name cclass declaratives = some (.builtin b) := by
  rw [_resolve_check_builtin (_pick_check_mem h).1 rfl, h]
  split <;> rfl

end

/-! ### Policy -/

/-- A step needs explicit approval if its check may change target state or is invasive. -/
def _step_needs_approval (check : Check) : Bool :=
  check.state_changing || check.intensity == .INVASIVE

section

variable [u : UnicodeTables]

/-- The declared policy of a declarative check, which can only narrow what the record permits: the
reason and the code when the step must be denied. -/
def _declarative_policy_block (check : Check) (record : AuthorizationRecord) :
    Option (String × String) :=
  match check with
  | .builtin _ => none
  | .declarative d =>
    if d.state_changing = true ∧ record.allow_state_changing = false then
      some ("declarative check is state-changing but the authorization record does not " ++
        "permit state-changing tests", "declarative_state_change_denied")
    else if d.allowed_environments ≠ [] ∧
        String.ofList (u.lower record.environment.toList) ∉ d.allowed_environments then
      some ("declarative check restricted to environments " ++
        Text.renderList (d.allowed_environments.map fun e ↦ Text.repr e.toList) ++
        "; authorization environment is " ++ Text.repr record.environment.toList,
        "declarative_environment_denied")
    else none

/-- The decision on a step whose check was resolved. -/
def policyDecision (guard : ScopeGuard) (check_class : String) (check : Check) : ScopeDecision :=
  let decision := guard.check_class_allowed check_class check.intensity
  match _declarative_policy_block check guard.record with
  | some (reason, code) =>
    if decision.allowed then { allowed := false, reason, code } else decision
  | none => decision

/-- Policy permits what the record permits and the declared policy does not block. -/
theorem policyDecision_allowed {guard : ScopeGuard} {cclass : String} {check : Check} :
    (policyDecision guard cclass check).allowed = true ↔
      (guard.check_class_allowed cclass check.intensity).allowed = true ∧
        _declarative_policy_block check guard.record = none := by
  rw [policyDecision]
  cases hblock : _declarative_policy_block check guard.record with
  | none => simp
  | some p =>
    dsimp only
    split <;> simp_all

/-- The status and the decision of a step whose check was resolved. -/
def gate (guard : ScopeGuard) (settings : Settings) (check : Check) (s : PlanStep) : PlanStep :=
  let decision := policyDecision guard s.check_class check
  let policy_decision : PolicyDecision :=
    { allowed := some decision.allowed, reason := some decision.reason, code := some decision.code }
  if ¬decision.allowed then { s with status := .denied, policy_decision }
  else if settings.step_approval_required ∧ _step_needs_approval check then
    { s with
      status := .awaiting_approval
      policy_decision :=
        { policy_decision with
          requires_approval := some true
          approval_reason := some
            (if check.state_changing then "state-changing check" else "invasive intensity") } }
  else { s with status := .approved, policy_decision }

/-- Policy on one step. -/
def judge (registry : _Registry) (guard : ScopeGuard) (settings : Settings)
    (declaratives : List DeclarativeCheck) (s : PlanStep) : PlanStep :=
  match _resolve_check registry s.check_name s.check_class declaratives with
  | none =>
    { s with
      status := .skipped
      policy_decision := { allowed := some false, reason := some "no check implementation" } }
  | some check => gate guard settings check s

/-- What a verdict says about the check of the step. -/
inductive Verdict (registry : _Registry) (guard : ScopeGuard) (settings : Settings)
    (declaratives : List DeclarativeCheck) (s : PlanStep) : StepStatus → Prop
  | skipped (hnone : _resolve_check registry s.check_name s.check_class declaratives = none) :
    Verdict registry guard settings declaratives s .skipped
  | denied : Verdict registry guard settings declaratives s .denied
  | held (check : Check)
    (hcheck : _resolve_check registry s.check_name s.check_class declaratives = some check)
    (hallowed : (policyDecision guard s.check_class check).allowed = true) :
    Verdict registry guard settings declaratives s .awaiting_approval
  | approved (check : Check)
    (hcheck : _resolve_check registry s.check_name s.check_class declaratives = some check)
    (hallowed : (policyDecision guard s.check_class check).allowed = true)
    (hfree : settings.step_approval_required = true → _step_needs_approval check = false) :
    Verdict registry guard settings declaratives s .approved

theorem verdict_judge (registry : _Registry) (guard : ScopeGuard) (settings : Settings)
    (declaratives : List DeclarativeCheck) (s : PlanStep) :
    Verdict registry guard settings declaratives s
      (judge registry guard settings declaratives s).status := by
  rw [judge]
  split
  next hnone => exact .skipped hnone
  next check hcheck =>
    rw [gate]
    dsimp only
    split
    next => exact .denied
    next hallowed =>
      rw [not_not] at hallowed
      split
      next => exact .held check hcheck hallowed
      next hfree => exact .approved check hcheck hallowed fun hreq ↦ by simpa [hreq] using hfree

/-- A verdict changes the status and the decision of a step only. -/
theorem judge_same (registry : _Registry) (guard : ScopeGuard) (settings : Settings)
    (declaratives : List DeclarativeCheck) (s : PlanStep) :
    (judge registry guard settings declaratives s).id = s.id ∧
      (judge registry guard settings declaratives s).endpoint_id = s.endpoint_id ∧
      (judge registry guard settings declaratives s).check_class = s.check_class ∧
      (judge registry guard settings declaratives s).check_name = s.check_name := by
  unfold judge gate
  dsimp only
  split
  · exact ⟨rfl, rfl, rfl, rfl⟩
  · split
    · exact ⟨rfl, rfl, rfl, rfl⟩
    · split <;> exact ⟨rfl, rfl, rfl, rfl⟩

end

end Sentrik
