import Sentrik.Api.Assessments
import Sentrik.Orchestration.Dossier
import Sentrik.Orchestration.Lifetime

/-!
# Restarting an interrupted run

The startup sweep deletes rows by table. The tables of outputs are emptied, and so is the table of
endpoints, which holds inputs as well: what traffic brought before the run. Columns of the assessment are
set back one by one; the frozen skills and the summary are not among them, and the request counter is.

`CaseFile` is a dossier with the remaining rows and columns. `opened` is bookkeeping of the model: the
operator's inputs when the assessment was first started.
-/

namespace Sentrik

/-! ### Rows -/

structure Job where
  plan_step_id : ℕ
  failed : Bool
  deriving DecidableEq, Repr

structure ValidationResult where
  finding_id : ℕ
  outcome : FindingStatus
  deriving DecidableEq, Repr

/-- What operators put in before a run. -/
structure OperatorInputs where
  artifacts : List DiscoveryArtifact
  endpoints : List Endpoint

/-- An assessment with all its rows. -/
structure CaseFile where
  dossier : Dossier
  artifacts : List DiscoveryArtifact := []
  /-- The finding each row is evidence of. -/
  evidence : List ℕ := []
  validation_results : List ValidationResult := []
  jobs : List Job := []
  requests_made : ℕ := 0
  /-- `summary["agents_instantiated"]` -/
  agents_instantiated : Option ℕ := none
  /-- `summary["report_emphasis"]` -/
  report_emphasis : Option String := none
  opened : Option OperatorInputs := none

inductive CaseFileEvent
  /-- A step of the dossier; `exchanges` is how much evidence comes with what it stores. -/
  | dossier (e : DossierEvent) (exchanges : ℕ)
  /-- The client counts a request. -/
  | count (requests : ℕ)
  /-- Execution writes its part of the summary. -/
  | executed (agents : ℕ)
  /-- The reporter writes its part of the summary. -/
  | reports (emphasis : String)

/-- Whether the task of the run is executing steps. -/
def MainPc.executes : MainPc → Bool
  | .streaming .. | .retrying .. | .replanning .. | .replanStreaming .. => true
  | _ => false

/-- Whether the step clears the rows of the run. -/
def DossierEvent.clears (settings : Settings) (d : Dossier) : DossierEvent → Bool
  | .engine e _ => e.clears settings d.engine
  | _ => false

namespace CaseFile

abbrev engine (c : CaseFile) : Orchestrator := c.dossier.engine

/-! ### What steps store -/

/-- The job of a result that is consumed. -/
def jobsOf (d : Dossier) : DossierEvent → List Job
  | .engine e _ =>
    (d.engine.delivered e).toList.map fun t ↦
      { plan_step_id := t.step.id, failed := t.state = .finished true }
  | _ => []

def resultsOf : DossierEvent → List ValidationResult
  | .validate _ finding_id outcome => [{ finding_id, outcome }]
  | _ => []

/-- The exchanges of each new finding, and the one of a validation. -/
def evidenceOf (d d' : Dossier) (exchanges : ℕ) : DossierEvent → List ℕ
  | .engine .. =>
    (d'.findings.drop d.findings.length).flatMap fun f ↦ List.replicate exchanges f.id
  | .validate _ finding_id _ => List.replicate (min exchanges 1) finding_id
  | _ => []

/-- The sweep empties the tables of outputs and the request counter. -/
def clear (c : CaseFile) : CaseFile :=
  { c with evidence := [], validation_results := [], jobs := [], requests_made := 0 }

/-- The operator's inputs as they are. -/
def inputs (c : CaseFile) : OperatorInputs := ⟨c.artifacts, c.engine.endpoints⟩

/-- Note the inputs at the first start. -/
def noteOpening (c : CaseFile) : CaseFile :=
  { c with opened := c.opened <|> if c.engine.assessment.started then some c.inputs else none }

section

variable (digest : Text → Text) (registry : _Registry) (record : AuthorizationRecord)
variable (settings : Settings) [u : UnicodeTables]

def step (c : CaseFile) : CaseFileEvent → Option CaseFile
  | .dossier e exchanges =>
    (Dossier.step digest registry record settings c.dossier e).map fun d ↦
      let c' := if e.clears settings c.dossier then c.clear else c
      noteOpening { c' with
        dossier := d
        evidence := c'.evidence ++ evidenceOf c.dossier d exchanges e
        validation_results := c'.validation_results ++ resultsOf e
        jobs := c'.jobs ++ jobsOf c.dossier e }
  | .count requests =>
    if c.opened.isSome then
      some { c with requests_made := _persist_request_count requests c.requests_made }
    else none
  | .executed agents =>
    if c.engine.main.any (·.pc.executes) then some { c with agents_instantiated := some agents }
    else none
  | .reports emphasis =>
    if c.engine.main.any (·.pc = .inside .report) then some { c with report_emphasis := some emphasis }
    else none

end

/-- An assessment as it is created, with its artifacts. -/
def created (assessment_id org_id : ℕ) (requested : List String) (incremental : Bool)
    (prev : Option (List Text)) (artifacts : List DiscoveryArtifact) : CaseFile where
  dossier := .created assessment_id org_id requested incremental prev
  artifacts

end CaseFile

/-! ### The sweep -/

/-- What the sweep leaves of the engine's rows, before it launches the run. -/
def Orchestrator.swept (o : Orchestrator) : Orchestrator :=
  { o.crash with
    steps := []
    endpoints := []
    coverage := []
    assessment := { o.assessment with state := .CREATED, cancel_requested := false } }

namespace CaseFile

/-- The state the sweep leaves before it launches the run. -/
def swept (c : CaseFile) : CaseFile :=
  { c.clear with
    dossier := { c.dossier with engine := c.engine.swept, findings := [], suppressed := [] } }

/-- **A restart is like a fresh run**: the operator's inputs are those of the first start, no partial
result is there, and the requests that were sent are counted. -/
structure Fresh (inputs : OperatorInputs) (c : CaseFile) : Prop where
  artifacts : c.artifacts = inputs.artifacts
  endpoints : c.engine.endpoints = inputs.endpoints
  steps : c.engine.steps = []
  coverage : c.engine.coverage = []
  findings : c.dossier.findings = []
  evidence : c.evidence = []
  validation_results : c.validation_results = []
  jobs : c.jobs = []
  skill_snapshot : c.engine.assessment.skill_snapshot = []
  agents_instantiated : c.agents_instantiated = none
  risk : c.dossier.risk = none
  report_emphasis : c.report_emphasis = none
  accounted : c.engine.sent ≤ c.requests_made

/-- **The condition on the state at the crash**: no endpoint was ingested before the first start, no skill
is frozen, nothing is in the summary, and no request was sent. -/
structure Untouched (inputs : OperatorInputs) (c : CaseFile) : Prop where
  endpoints : inputs.endpoints = []
  skill_snapshot : c.engine.assessment.skill_snapshot = []
  agents_instantiated : c.agents_instantiated = none
  risk : c.dossier.risk = none
  report_emphasis : c.report_emphasis = none
  sent : c.engine.sent = 0

end CaseFile

namespace Orchestrator

variable {registry : _Registry} {record : AuthorizationRecord} {settings : Settings}
variable {o o' : Orchestrator}

/-- The sweep launches the run from the state it leaves. -/
theorem resume_eq_start_swept (h : o.restarts settings = true) :
    resume_incomplete_assessments settings o.crash = start_assessment settings o.swept := by
  obtain ⟨hstate, hstarted, hthread⟩ := of_decide_eq_true h
  have hlive : ¬(o.crash.assessment.state ∈ TERMINAL_STATES ∨ o.crash.assessment.started = false ∨
      o.crash.main.isSome = true) := by
    rintro (hterminal | hfresh | hmain)
    · exact hstate hterminal
    · exact Bool.false_ne_true (hfresh.symm.trans hstarted)
    · exact Bool.false_ne_true hmain
  have hthread' : ¬(settings.use_langgraph = true ∧ o.crash.thread.isSome = true) := hthread
  rw [resume_incomplete_assessments, if_neg hlive, if_neg hthread']
  rfl

end Orchestrator

namespace CaseFile

variable {digest : Text → Text} {registry : _Registry} {record : AuthorizationRecord}
variable {settings : Settings} {c c' : CaseFile}

/-- **A restart is like a fresh run exactly where the run has left nothing.** -/
theorem fresh_swept_iff (inputs : OperatorInputs) (hartifacts : c.artifacts = inputs.artifacts) :
    Fresh inputs c.swept ↔ Untouched inputs c := by
  constructor
  · intro h
    exact ⟨h.endpoints.symm, h.skill_snapshot, h.agents_instantiated, h.risk, h.report_emphasis,
      Nat.le_zero.1 h.accounted⟩
  · intro h
    exact ⟨hartifacts, h.endpoints.symm, rfl, rfl, rfl, rfl, rfl, rfl, h.skill_snapshot,
      h.agents_instantiated, h.risk, h.report_emphasis, Nat.le_zero.2 h.sent⟩

variable [u : UnicodeTables]

/-- The sweep of the machine leaves that state and launches the run. -/
theorem step_restart (h : c.engine.restarts settings = true) (found : List Dossier.RawFinding)
    (exchanges : ℕ) :
    ∃ c', step digest registry record settings c (.dossier (.engine .restart found) exchanges) =
        some c' ∧
      c'.engine = Orchestrator.start_assessment settings c.swept.engine ∧
      c'.dossier.findings = c.swept.dossier.findings ∧ c'.dossier.risk = c.swept.dossier.risk ∧
      c'.artifacts = c.swept.artifacts ∧ c'.evidence = c.swept.evidence ∧
      c'.validation_results = c.swept.validation_results ∧ c'.jobs = c.swept.jobs ∧
      c'.requests_made = c.swept.requests_made ∧
      c'.agents_instantiated = c.swept.agents_instantiated ∧
      c'.report_emphasis = c.swept.report_emphasis := by
  have hengine : Orchestrator.step registry record settings c.dossier.engine .restart =
      some (Orchestrator.start_assessment settings c.swept.engine) :=
    congrArg some (Orchestrator.resume_eq_start_swept h)
  have hclears : EngineEvent.clears settings c.dossier.engine .restart = true := h
  have hrows : Dossier.rows digest record settings c.dossier .restart found =
      some { c.dossier with findings := [] } := by
    show some (if EngineEvent.clears settings c.dossier.engine .restart then
      { c.dossier with findings := [] } else c.dossier) = _
    rw [if_pos hclears]
  have hstep : ∃ d, Dossier.step digest registry record settings c.dossier (.engine .restart found) =
      some d ∧ d.engine = Orchestrator.start_assessment settings c.swept.engine ∧ d.findings = [] ∧
        d.risk = c.dossier.risk := by
    rw [Dossier.step, Dossier.act, hengine, Option.bind_some, hrows]
    exact ⟨_, rfl, rfl, rfl, rfl⟩
  obtain ⟨d, hd, hde, hdf, hdr⟩ := hstep
  have hevidence : evidenceOf c.dossier d exchanges (.engine .restart found) = [] := by
    rw [evidenceOf, hdf, List.drop_nil, List.flatMap_nil]
  have hclear : DossierEvent.clears settings c.dossier (.engine .restart found) = true := h
  rw [step, hd, Option.map_some]
  dsimp only
  rw [hclear, if_pos rfl, hevidence]
  exact ⟨_, rfl, hde, hdf, hdr, rfl, rfl, rfl, rfl, rfl, rfl, rfl⟩

/-! ### The first start -/

/-- **The invariant**: what was there at the first start is noted, and the artifacts are the same. -/
structure Opened (c : CaseFile) : Prop where
  noted : c.engine.assessment.started = true → c.opened.isSome = true
  artifacts : ∀ inputs ∈ c.opened, c.artifacts = inputs.artifacts

omit u in
theorem opened_noteOpening (h : ∀ inputs ∈ c.opened, c.artifacts = inputs.artifacts) :
    Opened c.noteOpening := by
  rw [noteOpening]
  cases hopened : c.opened with
  | some inputs =>
    have hsame := h inputs hopened
    exact ⟨fun _ ↦ rfl, fun i hi ↦ Option.some.inj hi ▸ hsame⟩
  | none =>
    refine ⟨fun hstarted ↦ ?_, fun i hi ↦ ?_⟩
    · have hstarted' : c.engine.assessment.started = true := hstarted
      show (none <|> if c.engine.assessment.started then some c.inputs else none).isSome = true
      rw [hstarted']
      rfl
    · have hi' : (if c.engine.assessment.started then some c.inputs else none) = some i := hi
      split at hi'
      · rw [← Option.some.inj hi', inputs]
      · cases hi'

theorem Opened.step {e : CaseFileEvent} (hO : Opened c)
    (h : step digest registry record settings c e = some c') : Opened c' := by
  cases e with
  | dossier e exchanges =>
    obtain ⟨d, -, rfl⟩ := Option.map_eq_some_iff.1 h
    refine opened_noteOpening fun inputs hi ↦ ?_
    cases hclears : e.clears settings c.dossier <;> rw [hclears] at hi <;> exact hO.artifacts inputs hi
  | count requests =>
    rw [CaseFile.step] at h
    split at h
    · exact Option.some.inj h ▸ ⟨hO.noted, hO.artifacts⟩
    · cases h
  | executed agents =>
    rw [CaseFile.step] at h
    split at h
    · exact Option.some.inj h ▸ ⟨hO.noted, hO.artifacts⟩
    · cases h
  | reports emphasis =>
    rw [CaseFile.step] at h
    split at h
    · exact Option.some.inj h ▸ ⟨hO.noted, hO.artifacts⟩
    · cases h

end CaseFile

/-! ### Sample runs -/

section

attribute [local instance] asciiTables

/-- Traffic is ingested before the run, which is interrupted in discovery. -/
def ingestedCrash : List CaseFileEvent :=
  ([.ingest [sampleEndpoint], .start true, .main (.enter 0), .main (.enter 0)] : List EngineEvent).map
    fun e ↦ .dossier (.engine e []) 0

/-- A run without inputs is interrupted before it has sent anything. -/
def earlyCrash : List CaseFileEvent :=
  ([.start true, .main (.enter 0), .main (.enter 0)] : List EngineEvent).map
    fun e ↦ .dossier (.engine e []) 0

end

end Sentrik
