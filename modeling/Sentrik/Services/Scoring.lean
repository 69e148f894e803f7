import Mathlib.Data.List.Sort
import Mathlib.Data.Rat.Floor
import Sentrik.Core.Basic

/-!
# Risk scoring

The score of a finding is a product of factors read off its row and its surroundings; the risk of an
assessment is read off the scores, the statuses and the coverage. Both are **pure functions of rows**, and
what is stored are copies of their values.

Numbers are exact rationals. Where the source rounds for display, the rounding is to the nearest number
with so many decimals, a tie to the even one.
-/

namespace Sentrik

namespace Scoring

def SCORER_VERSION : String := "1.1.0"

/-! ### Rounding -/

/-- The nearest integer, a tie to the even one. -/
def roundHalfEven (x : ℚ) : ℤ :=
  let below := ⌊x⌋
  let rest := x - below
  if rest < 1 / 2 then below
  else if 1 / 2 < rest then below + 1
  else if below % 2 = 0 then below
  else below + 1

def round (x : ℚ) (digits : ℕ) : ℚ := roundHalfEven (x * 10 ^ digits) / 10 ^ digits

/-! ### Findings -/

def _SEVERITY_BASE : Severity → ℚ
  | .INFO => 5
  | .LOW => 25
  | .MEDIUM => 50
  | .HIGH => 75
  | .CRITICAL => 95

def _CONFIDENCE_FACTOR : Confidence → ℚ
  | .LOW => 55 / 100
  | .MEDIUM => 75 / 100
  | .HIGH => 9 / 10
  | .CERTAIN => 1

def _STATUS_FACTOR : FindingStatus → ℚ
  | .CONFIRMED => 1
  | .SUSPECTED => 8 / 10
  | .INCONCLUSIVE => 5 / 10
  | .REJECTED => 0
  | .FIXED => 0
  | .REGRESSED => 1

structure ScoreBreakdown where
  scorer_version : String := SCORER_VERSION
  severity : String
  severity_base : ℚ
  confidence : String
  confidence_factor : ℚ
  status : String
  status_factor : ℚ
  exposure_factor : ℚ
  auth_required : Bool
  exposure_env : String
  formula : String := "base * confidence_factor * status_factor * exposure_factor"
  deriving DecidableEq, Repr

structure ScoreResult where
  score : ℚ
  breakdown : ScoreBreakdown
  deriving DecidableEq, Repr

/-- Anonymous and production endpoints are more exposed. -/
def exposureOf (auth_required : Bool) (exposure_env : String) : ℚ :=
  let exposure : ℚ := if auth_required then 1 else 1 + 15 / 100
  let exposure :=
    if exposure_env = "production" then exposure + 1 / 10
    else if ["lab", "development"].contains exposure_env then exposure - 1 / 10
    else exposure
  max (7 / 10) (min exposure (13 / 10))

def score_finding (severity confidence status : String) (auth_required : Bool)
    (exposure_env : String) : ScoreResult :=
  let sev := (Severity.ofValue severity).getD .MEDIUM
  let conf := (Confidence.ofValue confidence).getD .MEDIUM
  let stat := (FindingStatus.ofValue status).getD .SUSPECTED
  let exposure := exposureOf auth_required exposure_env
  let raw := _SEVERITY_BASE sev * _CONFIDENCE_FACTOR conf * _STATUS_FACTOR stat * exposure
  { score := round (max 0 (min raw 100)) 2
    breakdown :=
      { severity := sev.value
        severity_base := _SEVERITY_BASE sev
        confidence := conf.value
        confidence_factor := _CONFIDENCE_FACTOR conf
        status := stat.value
        status_factor := _STATUS_FACTOR stat
        exposure_factor := round exposure 3
        auth_required
        exposure_env } }

/-! ### Assessments -/

structure RiskBreakdown where
  scorer_version : String := SCORER_VERSION
  method : String := "mean of top-5 finding scores; grade floored by coverage"
  coverage_ratio : ℚ
  note : String := "grade of 'no-confirmed-issues' means tested-and-clean, not proven secure; " ++
    "untested endpoints remain unknown risk."
  deriving DecidableEq, Repr

structure AssessmentRisk where
  overall_score : ℚ
  grade : String
  coverage_ratio : ℚ
  tested_endpoints : ℕ
  total_endpoints : ℕ
  confirmed : ℕ
  suspected : ℕ
  uncertainty : ℚ
  breakdown : RiskBreakdown
  deriving DecidableEq, Repr

/-- The share of the inventory that was tested. -/
def coverageOf (tested_endpoints total_endpoints : ℕ) : ℚ :=
  if total_endpoints = 0 then 0 else tested_endpoints / total_endpoints

/-- The mean of the five highest scores, unrounded. -/
def meanOfTop (finding_scores : List ℚ) : ℚ :=
  let top := (finding_scores.mergeSort fun a b ↦ b ≤ a).take 5
  if top = [] then 0 else top.sum / top.length

/-- A low coverage is never presented as secure. -/
def gradeOf (total_endpoints : ℕ) (coverage overall : ℚ) (confirmed suspected : ℕ) : String :=
  if total_endpoints = 0 then "unknown"
  else if coverage < 1 / 2 then "insufficient-coverage"
  else if 75 ≤ overall then "critical"
  else if 50 ≤ overall then "at-risk"
  else if 25 ≤ overall then "needs-attention"
  else if confirmed = 0 ∧ suspected = 0 then "no-confirmed-issues"
  else "low-risk"

def score_assessment (finding_scores : List ℚ) (finding_statuses : List FindingStatus)
    (tested_endpoints total_endpoints : ℕ) : AssessmentRisk :=
  let confirmed := finding_statuses.countP (· == .CONFIRMED)
  let suspected := finding_statuses.countP (· == .SUSPECTED)
  let coverage := coverageOf tested_endpoints total_endpoints
  let overall := round (meanOfTop finding_scores) 2
  { overall_score := overall
    grade := gradeOf total_endpoints coverage overall confirmed suspected
    coverage_ratio := round coverage 3
    tested_endpoints
    total_endpoints
    confirmed
    suspected
    uncertainty := round (1 - coverage) 3
    breakdown := { coverage_ratio := round coverage 3 } }

example : (score_finding "high" "high" "suspected" true "lab").score = 4860 / 100 := by decide +kernel

end Scoring

end Sentrik
