import Mathlib.Data.List.Sort
import Sentrik.Checks.Base
import Sentrik.Security.Scope

/-!
# The assessment planner

`build_plan` maps the endpoint inventory to prioritized check steps: every pair of an endpoint and a
registered check that passes the filters becomes a step. The planner agent and the re-ranker only
reorder it.

## The empty set

A set of authorized classes is a list here. `build_plan` filters by it **only if it is not empty**, so
the empty set means every class. `mem_build_plan_iff` says exactly which steps there are.
-/

namespace Sentrik

/-! ### Endpoints -/

/-- A parameter of an endpoint; a key that is absent reads as the default. -/
structure Parameter where
  name : Text := []
  location : Text := []
  type : Text := []
  deriving DecidableEq, Repr

/-- What a check may see of a discovered endpoint. -/
structure EndpointView where
  id : ℕ
  method : Text
  url : Text
  path_template : Text := []
  parameters : List Parameter := []
  auth_required : Bool := false
  fingerprint : Text := []
  deriving DecidableEq, Repr

/-- A row of the inventory, with its change-sensitive surface signature. -/
structure Endpoint extends EndpointView where
  signature : Text := []
  deriving DecidableEq, Repr

def _endpoint_view (e : Endpoint) : EndpointView := e.toEndpointView

/-- Parameters worth injecting into. -/
def EndpointView.injectable_params (ev : EndpointView) : List Parameter :=
  ev.parameters.filter fun p ↦
    ["query".toList, "body".toList, "path".toList].contains p.location

/-! ### Planned steps -/

structure PlannedStep where
  endpoint_id : ℕ
  endpoint_url : Text
  check_class : String
  check_name : String
  intensity : String
  priority : ℕ
  rationale : String
  deriving DecidableEq, Repr

/-- Higher is more interesting: authentication, parameters and write methods raise the priority. -/
def _endpoint_priority (ev : EndpointView) : ℕ :=
  5 + min ev.parameters.length 4 + (if ev.auth_required then 2 else 0) +
    (if ["POST".toList, "PUT".toList, "PATCH".toList, "DELETE".toList].contains ev.method then 1
      else 0) +
    if Text.hasInfix "{id}".toList ev.path_template then 2 else 0

def _class_bonus (cclass : String) : ℕ :=
  if cclass = "sqli" ∨ cclass = "bola" then 4
  else if cclass = "xss" then 3
  else if cclass = "open_redirect" then 2
  else if cclass = "security_headers" ∨ cclass = "info_disclosure" then 0
  else 1

def _rationale (check : Check) (ev : EndpointView) : String :=
  check.check_class ++ " probe on " ++ String.ofList ev.method ++ " " ++
    String.ofList ev.path_template ++ " (" ++ (if ev.auth_required then "auth" else "unauth") ++
    ", " ++ toString ev.parameters.length ++ " params)"

/-- The checks the planner considers: the built-in ones, then the extra ones. -/
def allChecks (registry : _Registry) (extra_checks : List DeclarativeCheck) : List Check :=
  registry.all.map .builtin ++ extra_checks.map .declarative

theorem mem_allChecks {registry : _Registry} {extra : List DeclarativeCheck} {c : Check} :
    c ∈ allChecks registry extra ↔
      (∃ b ∈ registry.all, c = .builtin b) ∨ ∃ d ∈ extra, c = .declarative d := by
  simp only [allChecks, List.mem_append, List.mem_map, eq_comm (b := c)]

section

variable [u : UnicodeTables]

/-- Some parameter's name contains one of the words. -/
def EndpointView.namesAny (ev : EndpointView) (words : List String) : Bool :=
  ev.parameters.any fun p ↦ words.any fun w ↦ Text.hasInfix w.toList (u.lower p.name)

/-- The lightweight applicability gate. -/
def _quick_applies (check : Check) (ev : EndpointView) (multi : Bool) : Bool :=
  let cclass := check.check_class
  if cclass = "sqli" ∨ cclass = "xss" then
    !ev.parameters.isEmpty || Text.hasInfix "{id}".toList ev.path_template
  else if cclass = "open_redirect" then ev.namesAny ["redirect", "url", "return", "next"]
  else if cclass = "bola" then
    multi && ev.method == "GET".toList &&
      (Text.hasInfix "{id}".toList ev.path_template || ev.namesAny ["id"])
  else if cclass = "security_headers" ∨ cclass = "info_disclosure" then ev.method == "GET".toList
  else true

/-- The filters a pair of an endpoint and a check has to pass. -/
def Considers (authorized : List String) (max_intensity : TestIntensity) (multi : Bool)
    (ev : EndpointView) (check : Check) : Prop :=
  (authorized ≠ [] → check.check_class ∈ authorized) ∧
    _INTENSITY_RANK check.intensity ≤ _INTENSITY_RANK max_intensity ∧
    (check.check_class = "bola" → multi = true) ∧ _quick_applies check ev multi = true

instance (authorized : List String) (max_intensity : TestIntensity) (multi : Bool)
    (ev : EndpointView) (check : Check) :
    Decidable (Considers authorized max_intensity multi ev check) :=
  inferInstanceAs (Decidable (_ ∧ _))

/-- The step of a pair. -/
def plannedStep (ev : EndpointView) (check : Check) : PlannedStep where
  endpoint_id := ev.id
  endpoint_url := ev.url
  check_class := check.check_class
  check_name := check.name
  intensity := check.intensity.value
  priority := _endpoint_priority ev + _class_bonus check.check_class
  rationale := _rationale check ev

/-- The deterministic plan, highest priority first. -/
def build_plan (registry : _Registry) (endpoints : List EndpointView)
    (authorized_check_classes : List String) (max_intensity : TestIntensity)
    (has_multiple_sessions : Bool) (extra_checks : List DeclarativeCheck) : List PlannedStep :=
  let steps := endpoints.flatMap fun ev ↦
    ((allChecks registry extra_checks).filter fun check ↦
      Considers authorized_check_classes max_intensity has_multiple_sessions ev check).map
        (plannedStep ev)
  steps.insertionSort fun s t ↦ t.priority ≤ s.priority

/-- **What is planned**: the steps of the pairs that pass the filters, and no others. -/
theorem mem_build_plan_iff {registry : _Registry} {endpoints : List EndpointView}
    {authorized : List String} {max_intensity : TestIntensity} {multi : Bool}
    {extra : List DeclarativeCheck} {p : PlannedStep} :
    p ∈ build_plan registry endpoints authorized max_intensity multi extra ↔
      ∃ ev ∈ endpoints, ∃ check ∈ allChecks registry extra,
        Considers authorized max_intensity multi ev check ∧ p = plannedStep ev check := by
  simp only [build_plan, List.mem_insertionSort, List.mem_flatMap, List.mem_map, List.mem_filter,
    decide_eq_true_eq, and_assoc, eq_comm (a := p)]

end

/-! ### Reordering -/

def riskWeight (cclass : String) : ℕ :=
  if cclass = "sqli" ∨ cclass = "bola" then 5
  else if cclass = "xss" then 4
  else if cclass = "open_redirect" then 3
  else if cclass = "security_headers" ∨ cclass = "info_disclosure" then 1
  else 2

/-- Reorder the plan by the strategy the planner agent chose. -/
def _apply_strategy (planned : List PlannedStep) (strategy : String) : List PlannedStep :=
  if strategy = "risk-first" then
    planned.insertionSort fun s t ↦
      riskWeight t.check_class < riskWeight s.check_class ∨
        riskWeight t.check_class = riskWeight s.check_class ∧ t.priority ≤ s.priority
  else if strategy = "coverage-first" then
    planned.insertionSort fun s t ↦
      s.endpoint_id < t.endpoint_id ∨ s.endpoint_id = t.endpoint_id ∧ t.priority ≤ s.priority
  else planned.insertionSort fun s t ↦ t.priority ≤ s.priority

theorem perm_apply_strategy (planned : List PlannedStep) (strategy : String) :
    (_apply_strategy planned strategy).Perm planned := by
  unfold _apply_strategy
  split
  · exact List.perm_insertionSort ..
  split <;> exact List.perm_insertionSort ..

/-- Reorder by first appearance of the check name in `order`; steps not named go to the end. -/
def _apply_reorder (planned : List PlannedStep) (order : List String) : List PlannedStep :=
  planned.insertionSort fun s t ↦ order.idxOf s.check_name ≤ order.idxOf t.check_name

/-- The re-ranked plan, for what the re-ranker answered, if it was asked. -/
def rerank_plan (planned : List PlannedStep) (order : Option (List String)) : List PlannedStep :=
  match order with
  | none | some [] => planned
  | some order => _apply_reorder planned order

theorem perm_rerank_plan (planned : List PlannedStep) (order : Option (List String)) :
    (rerank_plan planned order).Perm planned := by
  unfold rerank_plan
  split
  · exact List.Perm.refl _
  · exact List.Perm.refl _
  · exact List.perm_insertionSort ..

end Sentrik
