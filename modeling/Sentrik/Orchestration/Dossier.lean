import Sentrik.Api.Triage
import Sentrik.Orchestration.Clearance
import Sentrik.Services.Scoring

/-!
# The dossier of an assessment

The findings of one assessment and the risk that is stored with it, beside the engine that produces
them. Every step of the engine is a step here. It carries, in addition, the findings in the result it
consumes, if it consumes one; scoring reads the tables and stores copies of what it computes from them.

Scoring is two transactions: the first rejects known false positives, the second scores. `suppressed` are
the tasks between the two.

`unscored` is bookkeeping of the model: whether something scoring reads was written since the last
scoring.
-/

namespace Sentrik

/-- The findings of an assessment and its risk, beside the engine. -/
structure Dossier where
  engine : Orchestrator
  assessment_id : ℕ := 0
  findings : List Finding := []
  nextFinding : ℕ := 0
  /-- The keys of the known false positives of the target. -/
  known : List Text := []
  /-- `summary["risk"]` -/
  risk : Option Scoring.AssessmentRisk := none
  /-- The tasks that have rejected the known false positives and score next; `none` is the run. -/
  suppressed : List (Option ℕ) := []
  unscored : Bool := false

namespace Dossier

/-! ### Raw findings -/

/-- What is stored of a finding in a result, and what its key is made of. -/
structure RawFinding where
  check_class : String
  title : Text := []
  severity : Severity
  confidence : Confidence
  dedup_seed : Text := []
  endpoint_url : Text := []
  deriving DecidableEq, Repr

def RawFinding.seed (rf : RawFinding) : Text :=
  if rf.dedup_seed ≠ [] then rf.dedup_seed
  else rf.check_class.toList ++ ":".toList ++ rf.endpoint_url ++ ":".toList ++ rf.title

/-- `digest` is the hexadecimal SHA-1 digest. -/
def RawFinding.dedup_key (digest : Text → Text) (rf : RawFinding) (endpoint_fp : Text) : Text :=
  digest (endpoint_fp ++ ":".toList ++ rf.seed)

end Dossier

/-- What happens to a dossier. -/
inductive DossierEvent
  /-- A step of the engine; `found` are the findings in the result it consumes. -/
  | engine (e : EngineEvent) (found : List Dossier.RawFinding)
  /-- The first transaction of scoring, by the run or an execution. -/
  | suppress (who : Option ℕ)
  /-- Validation writes an outcome, by the run or an execution. -/
  | validate (who : Option ℕ) (finding_id : ℕ) (outcome : FindingStatus)
  | triage (finding_id : ℕ) (status : FindingStatus)
  /-- The marks of known false positives change. -/
  | known (keys : List Text)

namespace Orchestrator

/-! ### Where the tasks are -/

/-- The task at whose result the step looks, if the step consumes it. -/
def delivered (o : Orchestrator) : EngineEvent → Option AgentTask
  | .main (.deliver i noticed) =>
    if o.assessment.cancel_requested ∨ noticed then none
    else
      o.main.bind fun m ↦
        match m.pc with
        | .streaming pool _ | .replanStreaming _ pool => (o.resultOf pool i).map Prod.fst
        | _ => none
  | .main .retried =>
    o.main.bind fun m ↦
      match m.pc with
      | .retrying _ (some i) _ _ => o.tasks[i]?
      | _ => none
  | .execution j (.deliver i noticed) =>
    if o.assessment.cancel_requested ∨ noticed then none
    else
      o.executions[j]?.bind fun x ↦
        match x.pc with
        | .streaming pool => (o.resultOf pool i).map Prod.fst
        | _ => none
  | _ => none

/-- Whether the run, or an execution, is in its scoring phase. -/
def isScoring (o : Orchestrator) : Option ℕ → Bool
  | none => o.main.any (·.pc = .inside .score)
  | some j => o.executions[j]?.any (·.pc = .scoring)

/-- Whether the run, or an execution, is validating. -/
def isValidating (o : Orchestrator) : Option ℕ → Bool
  | none => o.main.any (·.pc = .inside .validate)
  | some j => o.executions[j]?.any (·.pc = .validating)

/-- Whether the startup sweep restarts the assessment from nothing. -/
def restarts (settings : Settings) (o : Orchestrator) : Bool :=
  o.assessment.state ∉ TERMINAL_STATES ∧ o.assessment.started = true ∧
    ¬(settings.use_langgraph = true ∧ o.thread.isSome = true)

end Orchestrator

/-- Who scores by this step. -/
def EngineEvent.scorer : EngineEvent → Option (Option ℕ)
  | .main .scored => some none
  | .execution j .scored => some (some j)
  | _ => none

/-- Whether the step clears the findings. -/
def EngineEvent.clears (settings : Settings) (o : Orchestrator) : EngineEvent → Bool
  | .restart => o.restarts settings
  | _ => false

namespace Dossier

/-! ### Scoring -/

/-- Whether the endpoint of a finding asks for authentication. -/
def authRequired (endpoints : List Endpoint) (f : Finding) : Bool :=
  (f.endpoint_id.bind fun id ↦ endpoints.find? (·.id = id)).any (·.auth_required)

/-- The score of a finding as it is now. -/
def scoreOf (record : AuthorizationRecord) (endpoints : List Endpoint) (f : Finding) : ℚ :=
  (Scoring.score_finding f.severity.value f.confidence.value f.status.value
    (authRequired endpoints f) record.environment).score

/-- How many endpoints have a step that is done. -/
def testedEndpoints (o : Orchestrator) : ℕ := ((o.pairs [.done]).map Prod.fst).dedup.length

/-- The statuses whose scores count for the assessment. -/
def counted (f : Finding) : Bool := [.CONFIRMED, .SUSPECTED, .REGRESSED].contains f.status

/-- The risk of the assessment, from the scores its findings have. -/
def riskOf (o : Orchestrator) (findings : List Finding) : Scoring.AssessmentRisk :=
  Scoring.score_assessment ((findings.filter counted).map (·.risk_score)) (findings.map (·.status))
    (testedEndpoints o) o.endpoints.length

/-- The second transaction of scoring. -/
def _phase_score (record : AuthorizationRecord) (d : Dossier) : Dossier :=
  let findings := d.findings.map fun f ↦
    { f with risk_score := scoreOf record d.engine.endpoints f }
  { d with findings, risk := some (riskOf d.engine findings) }

/-! ### The machine -/

/-- Store a finding, unless there is one under its key. -/
def _persist_finding (digest : Text → Text) (endpoint : Endpoint) (d : Dossier) (rf : RawFinding) :
    Dossier :=
  let dedup_key := rf.dedup_key digest endpoint.fingerprint
  if d.findings.any (·.dedup_key = dedup_key) then d
  else
    { d with
      findings := d.findings ++ [{
        id := d.nextFinding
        assessment_id := d.assessment_id
        endpoint_id := some endpoint.id
        check_class := rf.check_class
        severity := rf.severity
        confidence := rf.confidence
        dedup_key }]
      nextFinding := d.nextFinding + 1 }

/-- Store the findings of a result. The endpoint of the step has to be there. -/
def _persist_agent_result (digest : Text → Text) (d : Dossier) (t : AgentTask)
    (found : List RawFinding) : Option Dossier :=
  if found = [] then some d
  else
    (d.engine.endpoints.find? (·.id = t.step.endpoint_id)).map fun endpoint ↦
      found.foldl (_persist_finding digest endpoint) d

def setStatus (d : Dossier) (finding_id : ℕ) (status : FindingStatus) : Dossier :=
  { d with findings := d.findings.map fun f ↦ if f.id = finding_id then { f with status } else f }

section

variable (digest : Text → Text) (registry : _Registry) (record : AuthorizationRecord)
variable (settings : Settings) [u : UnicodeTables]

/-- What a step of the engine writes here. -/
def rows (d : Dossier) (e : EngineEvent) (found : List RawFinding) : Option Dossier :=
  match e.scorer with
  | some who => if who ∈ d.suppressed then some (d._phase_score record) else none
  | none =>
    match d.engine.delivered e with
    | some t => d._persist_agent_result digest t found
    | none => some (if e.clears settings d.engine then { d with findings := [] } else d)

def act (d : Dossier) : DossierEvent → Option Dossier
  | .engine e found =>
    (Orchestrator.step registry record settings d.engine e).bind fun engine ↦
      (rows digest record settings d e found).map fun d ↦
        { d with engine, suppressed := d.suppressed.filter (engine.isScoring ·) }
  | .suppress who =>
    if d.engine.isScoring who ∧ who ∉ d.suppressed then
      some { d with
        findings := d.findings.map (Workspace.suppress d.known)
        suppressed := who :: d.suppressed }
    else none
  | .validate who finding_id outcome =>
    if d.engine.isValidating who then some (d.setStatus finding_id outcome) else none
  | .triage finding_id status =>
    if status ∈ TRIAGE_STATUSES then
      (d.findings.find? (·.id = finding_id)).map fun f ↦
        { d.setStatus finding_id status with
          known := if status = .REJECTED then f.dedup_key :: d.known else d.known }
    else none
  | .known keys => some { d with known := keys }

end

/-- What scoring reads. -/
def inputs (d : Dossier) : List Finding × List Endpoint × List (ℕ × String) :=
  (d.findings, d.engine.endpoints, d.engine.pairs [.done])

end Dossier

/-- Whether the step is the second transaction of a scoring. -/
def DossierEvent.scores : DossierEvent → Bool
  | .engine e _ => e.scorer.isSome
  | _ => false

namespace Dossier

section

variable (digest : Text → Text) (registry : _Registry) (record : AuthorizationRecord)
variable (settings : Settings) [u : UnicodeTables]

def step (d : Dossier) (e : DossierEvent) : Option Dossier :=
  (act digest registry record settings d e).map fun d' ↦
    { d' with unscored := !e.scores && (d.unscored || d'.inputs ≠ d.inputs) }

end

/-- The dossier of an assessment as it is created. -/
def created (assessment_id org_id : ℕ) (requested : List String) (incremental : Bool)
    (prev : Option (List Text)) : Dossier where
  engine := Orchestrator.created org_id requested incremental prev
  assessment_id

/-! ### What a step of the dossier is -/

section

variable {digest : Text → Text} {registry : _Registry} {record : AuthorizationRecord}
variable {settings : Settings} [u : UnicodeTables] {d d' : Dossier}

omit u in
@[simp] theorem _phase_score_engine (d : Dossier) : (d._phase_score record).engine = d.engine := rfl

omit u in
/-- Storing findings writes the findings alone. -/
theorem persist_finding_eq (digest : Text → Text) (endpoint : Endpoint) (d : Dossier) (rf : RawFinding) :
    ∃ findings nextFinding,
      _persist_finding digest endpoint d rf = { d with findings, nextFinding } := by
  rw [_persist_finding]
  split
  · exact ⟨d.findings, d.nextFinding, rfl⟩
  · exact ⟨_, _, rfl⟩

omit u in
theorem foldl_persist_eq (digest : Text → Text) (endpoint : Endpoint) (found : List RawFinding)
    (d : Dossier) :
    ∃ findings nextFinding,
      found.foldl (_persist_finding digest endpoint) d = { d with findings, nextFinding } := by
  induction found generalizing d with
  | nil => exact ⟨d.findings, d.nextFinding, rfl⟩
  | cons rf found ih =>
    obtain ⟨findings₁, next₁, h₁⟩ := persist_finding_eq digest endpoint d rf
    obtain ⟨findings₂, next₂, h₂⟩ := ih { d with findings := findings₁, nextFinding := next₁ }
    exact ⟨findings₂, next₂, by rw [List.foldl_cons, h₁, h₂]⟩

omit u in
/-- A step of the engine that does not score writes the findings alone, and only when it consumes a result
or clears them. -/
theorem rows_eq {e : EngineEvent} {found : List RawFinding} (hscorer : e.scorer = none)
    (h : rows digest record settings d e found = some d') :
    ∃ findings nextFinding, d' = { d with findings, nextFinding } ∧
      (d.engine.delivered e = none → e.clears settings d.engine = false → findings = d.findings) := by
  rw [rows, hscorer] at h
  cases hdelivered : d.engine.delivered e with
  | none =>
    rw [hdelivered] at h
    dsimp only at h
    cases hclears : e.clears settings d.engine with
    | true =>
      rw [hclears, if_pos rfl] at h
      exact ⟨[], d.nextFinding, (Option.some.inj h).symm, fun _ hfalse ↦ by cases hfalse⟩
    | false =>
      rw [hclears, if_neg (by decide)] at h
      exact ⟨d.findings, d.nextFinding, (Option.some.inj h).symm, fun _ _ ↦ rfl⟩
  | some t =>
    rw [hdelivered] at h
    dsimp only at h
    rw [_persist_agent_result] at h
    split at h
    · exact ⟨d.findings, d.nextFinding, (Option.some.inj h).symm, fun _ _ ↦ rfl⟩
    · obtain ⟨endpoint, -, rfl⟩ := Option.map_eq_some_iff.1 h
      obtain ⟨findings, nextFinding, heq⟩ := foldl_persist_eq digest endpoint found d
      exact ⟨findings, nextFinding, heq, fun hnone ↦ by cases hnone⟩

/-- A step of the dossier moves the engine by a step of its own, or leaves it alone. -/
theorem engine_of_step {e : DossierEvent} (h : step digest registry record settings d e = some d') :
    (∃ e' found, e = .engine e' found ∧
      Orchestrator.step registry record settings d.engine e' = some d'.engine) ∨
    d'.engine = d.engine := by
  rw [step] at h
  obtain ⟨d₁, hact, rfl⟩ := Option.map_eq_some_iff.1 h
  cases e with
  | engine e' found =>
    obtain ⟨engine, hengine, hrows⟩ := Option.bind_eq_some_iff.1 hact
    obtain ⟨d₂, -, rfl⟩ := Option.map_eq_some_iff.1 hrows
    exact Or.inl ⟨e', found, rfl, hengine⟩
  | suppress who =>
    rw [act] at hact
    split at hact
    · exact Or.inr (Option.some.inj hact ▸ rfl)
    · cases hact
  | validate who finding_id outcome =>
    rw [act] at hact
    split at hact
    · exact Or.inr (Option.some.inj hact ▸ rfl)
    · cases hact
  | triage finding_id status =>
    rw [act] at hact
    split at hact
    · obtain ⟨f, -, rfl⟩ := Option.map_eq_some_iff.1 hact
      exact Or.inr rfl
    · cases hact
  | known keys => exact Or.inr (Option.some.inj hact ▸ rfl)

end

end Dossier

/-! ### Sample runs -/

/-- A missing header, as the check reports it. -/
def headerFinding : Dossier.RawFinding where
  check_class := "security_headers"
  severity := .HIGH
  confidence := .CERTAIN
  dedup_seed := "headers:['Strict-Transport-Security']".toList

/-- The digest of the text its key is made of, on an endpoint without a fingerprint. -/
def headerDigest (_ : Text) : Text := "1a1cf5d9b151622850a194ac49c6b93151349218".toList

/-- A run that finds one thing, up to the end of its validation. -/
def foundRun : List DossierEvent :=
  (throughPolicy [sampleEndpoint] ++ throughDispatch ++ runAgent 0).map (.engine · []) ++
    [.engine (.main (.deliver 0 false)) [headerFinding]] ++
    ([.main .drained, .main (.retry false), .main (.replan { classes := ["security_headers"] }),
      .main (.enter 0)] : List EngineEvent).map (.engine · []) ++
    [.validate none 0 .INCONCLUSIVE]

/-- The rest of the run, to its end. -/
def throughScoring : List DossierEvent := [
  .engine (.main .validated) [], .engine (.main (.enter 0)) [], .suppress none,
  .engine (.main .scored) [], .engine (.main (.enter 0)) [], .engine (.main .reported) [],
  .engine (.main .leave) []]

end Sentrik
