import Mathlib.Data.Rat.Defs
import Sentrik.Library.Text

/-!
# Enumerations, settings, records

The shared vocabulary: the enumerations with the string values under which the database stores them,
the settings the modelled functions read, and the authorization record.

Rows keep the **stored strings** where the code does (`status`, `environment`, `intensity`): a stored
value need not be the value of any enumeration member, and the code decides at each use what such a
string means (`_coerce_env`, `_coerce_intensity`).
-/

namespace Sentrik

/-! ### Enumerations -/

inductive Environment
  | PRODUCTION | STAGING | DEVELOPMENT | LAB
  deriving DecidableEq, Repr

def Environment.value : Environment → String
  | PRODUCTION => "production"
  | STAGING => "staging"
  | DEVELOPMENT => "development"
  | LAB => "lab"

/-- The member with the given value; the constructor of the enumeration raises when there is none. -/
def Environment.ofValue (s : String) : Option Environment :=
  [PRODUCTION, STAGING, DEVELOPMENT, LAB].find? (·.value == s)

inductive OwnershipMethod
  | DNS_TXT | HTTP_FILE | MANUAL_ATTESTATION | LAB_BUNDLED
  deriving DecidableEq, Repr

def OwnershipMethod.value : OwnershipMethod → String
  | DNS_TXT => "dns_txt"
  | HTTP_FILE => "http_file"
  | MANUAL_ATTESTATION => "manual_attestation"
  | LAB_BUNDLED => "lab_bundled"

def OwnershipMethod.ofValue (s : String) : Option OwnershipMethod :=
  [DNS_TXT, HTTP_FILE, MANUAL_ATTESTATION, LAB_BUNDLED].find? (·.value == s)

inductive VerificationStatus
  | PENDING | VERIFIED | FAILED | REVOKED
  deriving DecidableEq, Repr

def VerificationStatus.value : VerificationStatus → String
  | PENDING => "pending"
  | VERIFIED => "verified"
  | FAILED => "failed"
  | REVOKED => "revoked"

/-- Graduated testing permission. -/
inductive TestIntensity
  | PASSIVE | SAFE_ACTIVE | INVASIVE
  deriving DecidableEq, Repr

def TestIntensity.value : TestIntensity → String
  | PASSIVE => "passive"
  | SAFE_ACTIVE => "safe_active"
  | INVASIVE => "invasive"

def TestIntensity.ofValue (s : String) : Option TestIntensity :=
  [PASSIVE, SAFE_ACTIVE, INVASIVE].find? (·.value == s)

inductive AssessmentState
  | CREATED | AUTHORIZED | DISCOVERING | PLANNING | POLICY_CHECK | EXECUTING | VALIDATING | SCORING
  | REPORTING | COMPLETED | FAILED | CANCELLED
  deriving DecidableEq, Repr

def AssessmentState.value : AssessmentState → String
  | CREATED => "created"
  | AUTHORIZED => "authorized"
  | DISCOVERING => "discovering"
  | PLANNING => "planning"
  | POLICY_CHECK => "policy_check"
  | EXECUTING => "executing"
  | VALIDATING => "validating"
  | SCORING => "scoring"
  | REPORTING => "reporting"
  | COMPLETED => "completed"
  | FAILED => "failed"
  | CANCELLED => "cancelled"

inductive Severity
  | INFO | LOW | MEDIUM | HIGH | CRITICAL
  deriving DecidableEq, Repr

def Severity.value : Severity → String
  | INFO => "info"
  | LOW => "low"
  | MEDIUM => "medium"
  | HIGH => "high"
  | CRITICAL => "critical"

def Severity.ofValue (s : String) : Option Severity :=
  [INFO, LOW, MEDIUM, HIGH, CRITICAL].find? (·.value == s)

/-- Explicit outcomes after independent validation. -/
inductive FindingStatus
  | SUSPECTED | CONFIRMED | INCONCLUSIVE | REJECTED | FIXED | REGRESSED
  deriving DecidableEq, Repr

def FindingStatus.value : FindingStatus → String
  | SUSPECTED => "suspected"
  | CONFIRMED => "confirmed"
  | INCONCLUSIVE => "inconclusive"
  | REJECTED => "rejected"
  | FIXED => "fixed"
  | REGRESSED => "regressed"

def FindingStatus.ofValue (s : String) : Option FindingStatus :=
  [SUSPECTED, CONFIRMED, INCONCLUSIVE, REJECTED, FIXED, REGRESSED].find? (·.value == s)

inductive Confidence
  | LOW | MEDIUM | HIGH | CERTAIN
  deriving DecidableEq, Repr

def Confidence.value : Confidence → String
  | LOW => "low"
  | MEDIUM => "medium"
  | HIGH => "high"
  | CERTAIN => "certain"

def Confidence.ofValue (s : String) : Option Confidence :=
  [LOW, MEDIUM, HIGH, CERTAIN].find? (·.value == s)

/-- The states in which a run is over. -/
def TERMINAL_STATES : List AssessmentState := [.COMPLETED, .FAILED, .CANCELLED]

/-- The safest default for a stored environment the enumeration does not know. -/
def _coerce_env (value : String) : Environment := (Environment.ofValue value).getD .PRODUCTION

/-- The safest default for a stored intensity the enumeration does not know. -/
def _coerce_intensity (value : String) : TestIntensity := (TestIntensity.ofValue value).getD .PASSIVE

@[simp] theorem _coerce_env_value (e : Environment) : _coerce_env e.value = e := by
  cases e <;> decide

@[simp] theorem _coerce_intensity_value (i : TestIntensity) : _coerce_intensity i.value = i := by
  cases i <;> decide

/-! ### Settings -/

/-- The settings the modelled functions read, with their defaults. -/
structure Settings where
  max_requests_per_assessment : ℤ := 5000
  default_rate_limit_per_sec : ℚ := 20
  target_health_max_consecutive_errors : ℕ := 8
  allow_private_networks : Bool := true
  ownership_dns_token_prefix : Text := "sentrik-site-verification".toList
  ownership_http_well_known_path : Text := "/.well-known/sentrik-verification.txt".toList
  step_approval_required : Bool := true
  max_replans : ℕ := 1
  replan_batch : ℕ := 15
  auto_replan_on_coverage_gap : Bool := true
  max_step_retries : ℕ := 2
  execution_concurrency : ℕ := 4
  max_recursion_depth : ℕ := 6
  use_langgraph : Bool := false
  sandbox_mode : String := "none"
  sandbox_enforce_egress_allowlist : Bool := true

/-! ### Words -/

/-- What the word class of a pattern reads of the Unicode tables. -/
class WordTables where
  /-- Letters and digits. -/
  isAlnum : Char → Bool

/-- The word tables restricted to ASCII. -/
@[reducible] def asciiWords : WordTables where
  isAlnum c := c.isAlphanum

/-- A character of a word. -/
def isWord [w : WordTables] (c : Char) : Bool := w.isAlnum c || c == '_'

/-! ### The authorization record -/

/-- A point in time and its rendering. -/
structure DateTime where
  instant : ℤ
  isoformat : String
  deriving DecidableEq, Repr

/-- The explicit authorization bound to every assessment. -/
structure AuthorizationRecord where
  org_id : ℕ
  target_id : ℕ
  status : String := "pending"
  environment : String := "lab"
  intensity : String := "passive"
  allowed_hosts : List Text := []
  allowed_ports : List ℤ := []
  allowed_methods : List Text := []
  allowed_check_classes : List String := []
  path_allowlist : List Text := []
  path_denylist : List Text := []
  max_requests : ℤ := 2000
  rate_limit_per_sec : ℚ := 10
  window_start : Option DateTime := none
  window_end : Option DateTime := none
  allow_state_changing : Bool := false
  ownership_verification_id : Option ℕ := none
  deriving DecidableEq, Repr

end Sentrik
