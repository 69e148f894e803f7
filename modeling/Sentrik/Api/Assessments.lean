import Sentrik.Library.Json
import Sentrik.Core.Auth
import Sentrik.Api.Targets
import Sentrik.Security.HttpClient

/-!
# Creating and starting assessments

The service every entry point creates assessments through, the launch of a run, and the two REST
handlers over them. The REST handlers demand the operator role before anything else.

Ids come from a counter and stand for their decimal text where a caller names a row
(`idText`). What a call does to the outside is its list of effects (`Effect`): assessments it created
or started, requests it sent to a target. The audit entries are left out.
-/

namespace Sentrik

/-! ### Rows -/

structure AuthorizationRow where
  id : ℕ
  record : AuthorizationRecord

structure AssessmentRow where
  id : ℕ
  org_id : ℕ
  target_id : ℕ
  authorization_id : ℕ
  state : AssessmentState := .CREATED
  requested_check_classes : List Text := []
  cancel_requested : Bool := false
  error : String := ""
  deriving DecidableEq

structure DiscoveryArtifact where
  org_id : ℕ
  assessment_id : ℕ
  kind : Text
  filename : Text
  content : Text
  endpoint_url : Text
  deriving DecidableEq

/-- The tables of the application, and the assessments with a run in progress. -/
structure Platform where
  targets : List Target := []
  records : List AuthorizationRow := []
  assessments : List AssessmentRow := []
  artifacts : List DiscoveryArtifact := []
  running : List ℕ := []
  nextId : ℕ := 0

/-- What a call does to the outside. -/
inductive Effect
  | created (assessment_id : ℕ)
  | started (assessment_id : ℕ)
  | sent (request : Sent)

/-- An id as a caller writes it. -/
def idText (id : ℕ) : Text := (toString id).toList

namespace Platform

/-! ### Lookups -/

def getTarget (p : Platform) (id : Text) : Option Target := p.targets.find? (idText ·.id = id)

def getRecord (p : Platform) (id : Text) : Option AuthorizationRow :=
  p.records.find? (idText ·.id = id)

def getAssessment (p : Platform) (id : Text) : Option AssessmentRow :=
  p.assessments.find? (idText ·.id = id)

/-! ### The service -/

structure AssessmentCreateError where
  status_code : ℕ
  detail : String
  deriving DecidableEq

section

variable [UnicodeTables]

/-- The stored form of a supplied artifact. -/
def artifactRow (org_id assessment_id : ℕ) (art : Dict) : DiscoveryArtifact where
  org_id
  assessment_id
  kind := ((art.get? "kind".toList).getD (.str "openapi".toList)).toText
  filename := ((Json.orNone (art.get? "filename".toList)).getD (.str [])).toText
  content := ((Json.orNone (art.get? "content".toList)).getD (.str [])).toText
  endpoint_url := ((Json.orNone (art.get? "endpoint_url".toList)).getD (.str [])).toText

/-- Create an assessment bound to a verified authorization of the caller's organization. -/
def create_assessment (p : Platform) (org_id : ℕ) (target_id authorization_id : Text)
    (requested_check_classes : List Text) (artifacts : List Dict) :
    Except AssessmentCreateError (Platform × AssessmentRow) :=
  match (p.getTarget target_id).filter (·.org_id = org_id) with
  | none => .error { status_code := 404, detail := "target not found" }
  | some target =>
    match (p.getRecord authorization_id).filter fun r ↦
        r.record.org_id = org_id ∧ r.record.target_id = target.id with
    | none => .error { status_code := 404, detail := "authorization not found for target" }
    | some row =>
      if row.record.status ≠ VerificationStatus.VERIFIED.value then
        .error {
          status_code := 403
          detail := s!"authorization not verified (status={row.record.status}); " ++
            "verify ownership and re-create the authorization" }
      else
        let assessment : AssessmentRow := {
          id := p.nextId
          org_id
          target_id := target.id
          authorization_id := row.id
          requested_check_classes }
        .ok ({ p with
          assessments := p.assessments ++ [assessment]
          artifacts := p.artifacts ++ artifacts.map (artifactRow org_id assessment.id)
          nextId := p.nextId + 1 }, assessment)

/-- The target and the authorization a caller of an organization may create an assessment for. -/
structure Creatable (p : Platform) (org_id : ℕ) (target_id authorization_id : Text) : Prop where
  rows : ∃ target row, p.getTarget target_id = some target ∧ target.org_id = org_id ∧
    p.getRecord authorization_id = some row ∧ row.record.org_id = org_id ∧
    row.record.target_id = target.id ∧ row.record.status = VerificationStatus.VERIFIED.value

/-- The service creates an assessment exactly there. -/
theorem create_assessment_ok_iff {p : Platform} {org_id : ℕ} {target_id authorization_id : Text}
    {classes : List Text} {artifacts : List Dict} :
    (∃ r, p.create_assessment org_id target_id authorization_id classes artifacts = .ok r) ↔
      p.Creatable org_id target_id authorization_id := by
  rw [create_assessment]
  constructor
  · rintro ⟨r, hr⟩
    split at hr
    · cases hr
    next target htarget =>
    split at hr
    · cases hr
    next row hrow =>
    split at hr
    · cases hr
    next hverified =>
      obtain ⟨hfind, horg⟩ := Option.filter_eq_some_iff.1 htarget
      obtain ⟨hfind', hrec⟩ := Option.filter_eq_some_iff.1 hrow
      obtain ⟨horg', htid⟩ := of_decide_eq_true hrec
      exact ⟨target, row, hfind, of_decide_eq_true horg, hfind', horg', htid,
        not_not.1 hverified⟩
  · rintro ⟨target, row, htarget, horg, hrow, horg', htid, hverified⟩
    rw [htarget, Option.filter_some, if_pos (decide_eq_true horg)]
    dsimp only
    rw [hrow, Option.filter_some, if_pos (decide_eq_true ⟨horg', htid⟩)]
    dsimp only
    rw [if_neg (not_not.2 hverified)]
    exact ⟨_, rfl⟩

end

/-- `orchestrator.start_assessment`: launch a run unless one is in progress. -/
def start_assessment (p : Platform) (id : ℕ) : Platform × List Effect :=
  if id ∈ p.running then (p, []) else ({ p with running := p.running ++ [id] }, [.started id])

/-! ### REST -/

structure ArtifactUpload where
  kind : Text
  filename : Text := []
  content : Text
  endpoint_url : Text := []

/-- `model_dump` of an uploaded artifact. -/
def ArtifactUpload.dump (a : ArtifactUpload) : Dict :=
  [("kind".toList, .str a.kind), ("filename".toList, .str a.filename),
    ("content".toList, .str a.content), ("endpoint_url".toList, .str a.endpoint_url)]

structure AssessmentCreate where
  target_id : Text
  authorization_id : Text
  requested_check_classes : List Text := []
  artifacts : List ArtifactUpload := []

/-- What a call leaves behind, does, and answers. -/
structure Outcome (ρ : Type) where
  platform : Platform
  effects : List Effect
  reply : ρ

/-- `POST /v1/assessments`. -/
def rest_create_assessment [UnicodeTables] (p : Platform) (principal : Principal)
    (body : AssessmentCreate) : Outcome (Except HTTPException AssessmentRow) :=
  match principal.require_role .OPERATOR with
  | .error e => ⟨p, [], .error e⟩
  | .ok () =>
    match p.create_assessment principal.org_id body.target_id body.authorization_id
        body.requested_check_classes (body.artifacts.map ArtifactUpload.dump) with
    | .error e => ⟨p, [], .error { status_code := e.status_code, detail := e.detail }⟩
    | .ok (p, a) => ⟨p, [.created a.id], .ok a⟩

/-- `POST /v1/assessments/{id}/start`. -/
def rest_start_assessment (p : Platform) (principal : Principal) (assessment_id : Text) :
    Outcome (Except HTTPException AssessmentRow) :=
  match principal.require_role .OPERATOR with
  | .error e => ⟨p, [], .error e⟩
  | .ok () =>
    match (p.getAssessment assessment_id).filter (·.org_id = principal.org_id) with
    | none => ⟨p, [], .error { status_code := 404, detail := "assessment not found" }⟩
    | some a =>
      if a.state ≠ .CREATED ∧ a.state ≠ .FAILED then
        ⟨p, [], .error { status_code := 409, detail := s!"cannot start from state {a.state.value}" }⟩
      else
        let row := { a with cancel_requested := false, error := "" }
        let p := { p with
          assessments := p.assessments.map fun b : AssessmentRow ↦
            if b.id = a.id then row else b }
        ⟨(p.start_assessment a.id).1, (p.start_assessment a.id).2, .ok row⟩

/-- Over REST nothing is created below the operator role. -/
theorem rest_create_role [UnicodeTables] {p : Platform} {principal : Principal}
    {body : AssessmentCreate} (h : (p.rest_create_assessment principal body).effects ≠ []) :
    ROLE_RANK .OPERATOR ≤ ROLE_RANK principal.role := by
  rw [rest_create_assessment] at h
  cases hrole : principal.require_role .OPERATOR with
  | ok x => exact Principal.require_role_ok.1 hrole
  | error e =>
    rw [hrole] at h
    exact absurd rfl h

/-- Nor started. -/
theorem rest_start_role {p : Platform} {principal : Principal} {assessment_id : Text}
    (h : (p.rest_start_assessment principal assessment_id).effects ≠ []) :
    ROLE_RANK .OPERATOR ≤ ROLE_RANK principal.role := by
  rw [rest_start_assessment] at h
  cases hrole : principal.require_role .OPERATOR with
  | ok x => exact Principal.require_role_ok.1 hrole
  | error e =>
    rw [hrole] at h
    exact absurd rfl h

end Platform

end Sentrik
