import Sentrik.Integrations.A2aServer
import Sentrik.Checks.Client
import Sentrik.Security.SideChannels
import Mathlib.Logic.Relation

/-!
# Every way to an assessment

An assessment is created over REST, by a message to the A2A server, by a connector once it has fetched its
document, by the CI webhook, or as a retest. The last three do not go through the service: a connector makes
its checks before the fetch and creates the row after it, the webhook checks the authorization again, and a
retest checks nothing but the assessment it retests.

`Workbench` is the application with the connector calls that are fetching; any number of calls of all these
kinds interleave. `Bound` is what the service demands of a new assessment. Every assessment has it, however it
came about, and the chain of what it retests ends in one that is no retest, of the same target and with the
same artifacts (`bound_of_run`).
-/

namespace Sentrik

/-- The body of a connector call. -/
structure ConnectorBody where
  /-- `url`, or `raw_spec_url`. -/
  url : Text
  authorization_id : Text
  kind : Text := "openapi".toList
  requested_check_classes : List Text := []
  start : Bool := false

/-- A connector call that has passed its checks and fetches its document. -/
structure Connector where
  org_id : ℕ
  target_id : ℕ
  authorization_id : ℕ
  body : ConnectorBody

structure CiBody where
  authorization_id : Option Text := none
  requested_check_classes : Option (List Text) := none
  start : Bool := true

structure RetestCreate where
  requested_check_classes : List Text := []

/-- The application, with the column `previous_assessment_id` of the assessments where it is set. -/
structure Workbench where
  platform : Platform := {}
  previous : List (ℕ × ℕ) := []
  fetching : List Connector := []

namespace Platform

/-! ### Lookups of the connectors -/

def _get_target (p : Platform) (principal : Principal) (target_id : Text) :
    Except HTTPException Target :=
  match (p.getTarget target_id).filter (·.org_id = principal.org_id) with
  | none => .error { status_code := 404, detail := "target not found" }
  | some target => .ok target

def _verified_authz (p : Platform) (principal : Principal) (target_id authorization_id : Text) :
    Except HTTPException AuthorizationRow :=
  match (p.getRecord authorization_id).filter fun r ↦
      r.record.org_id = principal.org_id ∧ idText r.record.target_id = target_id with
  | none => .error { status_code := 404, detail := "authorization not found for target" }
  | some row =>
    if row.record.status ≠ VerificationStatus.VERIFIED.value then
      .error { status_code := 403, detail := "authorization not verified" }
    else .ok row

def _get_assessment (p : Platform) (principal : Principal) (assessment_id : Text) :
    Except HTTPException AssessmentRow :=
  match (p.getAssessment assessment_id).filter (·.org_id = principal.org_id) with
  | none => .error { status_code := 404, detail := "assessment not found" }
  | some a => .ok a

/-- The assessments of a target of the caller, the latest of which is retested. -/
def latest (p : Platform) (principal : Principal) (target : Target) : Option AssessmentRow :=
  (p.assessments.filter fun a ↦ a.target_id = target.id ∧ a.org_id = principal.org_id).getLast?

/-- Launch a run, if asked to. -/
def startIf (start : Bool) (p : Platform) (id : ℕ) : Platform :=
  if start then (p.start_assessment id).1 else p

/-- A row and its artifacts are added together. -/
def addAssessment (p : Platform) (org_id target_id authorization_id : ℕ) (requested : List Text)
    (artifacts : List DiscoveryArtifact) : Platform :=
  { p with
    assessments := p.assessments ++ [{
      id := p.nextId
      org_id
      target_id
      authorization_id
      requested_check_classes := requested }]
    artifacts := p.artifacts ++ artifacts
    nextId := p.nextId + 1 }

/-- The artifacts of an assessment, as they are carried forward to another. -/
def carried (p : Platform) (org_id previous_id new_id : ℕ) : List DiscoveryArtifact :=
  (p.artifacts.filter (·.assessment_id = previous_id)).map fun art ↦
    { art with org_id, assessment_id := new_id }

end Platform

namespace Workbench

/-! ### Handlers -/

/-- The checks of both connectors; they differ in the name of the field that is demanded. -/
def connectWith (required : String) (p : Platform) (principal : Principal) (target_id : Text)
    (body : ConnectorBody) : Except HTTPException Connector := do
  principal.require_role .OPERATOR
  if body.url = [] ∨ body.authorization_id = [] then
    throw { status_code := 422, detail := required }
  let target ← p._get_target principal target_id
  let row ← p._verified_authz principal target_id body.authorization_id
  return { org_id := principal.org_id, target_id := target.id, authorization_id := row.id, body }

def connect_spec_url := connectWith "url and authorization_id are required"

def connect_repo := connectWith "raw_spec_url and authorization_id are required"

/-- What a connector does with the document it has fetched. -/
def _create_assessment_with_artifact (p : Platform) (c : Connector) (content : Text) : Platform :=
  (p.addAssessment c.org_id c.target_id c.authorization_id c.body.requested_check_classes [{
    org_id := c.org_id
    assessment_id := p.nextId
    kind := c.body.kind
    filename := c.body.url
    content
    endpoint_url := [] }]).startIf c.body.start p.nextId

/-- Add a retest of an assessment. -/
def addRetest (w : Workbench) (org_id target_id authorization_id : ℕ) (requested : List Text)
    (prev : AssessmentRow) : Workbench :=
  { w with
    platform := w.platform.addAssessment org_id target_id authorization_id requested
      (w.platform.carried org_id prev.id w.platform.nextId)
    previous := w.previous ++ [(w.platform.nextId, prev.id)] }

def ci_webhook (w : Workbench) (principal : Principal) (target_id : Text) (body : CiBody) :
    Except HTTPException Workbench := do
  principal.require_role .OPERATOR
  let target ← w.platform._get_target principal target_id
  match w.platform.latest principal target with
  | none => throw { status_code := 404, detail := "no prior assessment to retest for this target" }
  | some prev =>
    let authorization_id := body.authorization_id.getD (idText prev.authorization_id)
    let row ← w.platform._verified_authz principal target_id authorization_id
    let requested := body.requested_check_classes.getD prev.requested_check_classes
    let w' := w.addRetest principal.org_id target.id row.id requested prev
    return { w' with platform := w'.platform.startIf body.start w.platform.nextId }

def retest (w : Workbench) (principal : Principal) (assessment_id : Text) (body : RetestCreate) :
    Except HTTPException Workbench := do
  principal.require_role .OPERATOR
  let prev ← w.platform._get_assessment principal assessment_id
  let requested :=
    if body.requested_check_classes = [] then prev.requested_check_classes
    else body.requested_check_classes
  return w.addRetest principal.org_id prev.target_id prev.authorization_id requested prev

end Workbench

/-! ### The machine -/

inductive WorkbenchEvent
  /-- A target is created; the row is as the handler makes it. -/
  | create_target (row : Target)
  /-- An authorization record is created, of whatever status its ownership gives it. -/
  | create_authorization (principal : Principal) (target_id : Text) (record : AuthorizationRecord)
  | create_assessment (principal : Principal) (body : Platform.AssessmentCreate)
  | start_assessment (principal : Principal) (assessment_id : Text)
  | message_send (user_name : Option ℕ) (m : A2aMessage)
  | tasks_cancel (user_name : Option ℕ) (assessment_id : Text)
  | connect_spec_url (principal : Principal) (target_id : Text) (body : ConnectorBody)
  | connect_repo (principal : Principal) (target_id : Text) (body : ConnectorBody)
  /-- The fetch of a connector call ends. -/
  | fetched (i : ℕ) (check connect : DnsAnswer) (reply : SideReply)
  | ci_webhook (principal : Principal) (target_id : Text) (body : CiBody)
  | retest (principal : Principal) (assessment_id : Text) (body : RetestCreate)
  /-- A run writes a state, and may end. -/
  | run (assessment_id : ℕ) (state : AssessmentState) (ends : Bool)

namespace Workbench

section

variable [u : UnicodeTables] (json_loads : Text → Option Json)

def onPlatform (w : Workbench) (platform : Platform) : Workbench := { w with platform }

/-- A connector call that passes its checks goes on to fetch. -/
def fetch (w : Workbench) : Except HTTPException Connector → Workbench
  | .ok c => { w with fetching := w.fetching ++ [c] }
  | .error _ => w

/-- The workbench after a call; a call that raises changes nothing. -/
def step (w : Workbench) : WorkbenchEvent → Option Workbench
  | .create_target row =>
    let id := w.platform.nextId
    some (w.onPlatform { w.platform with
      targets := w.platform.targets ++ [{ row with id }], nextId := id + 1 })
  | .create_authorization principal target_id record =>
    match w.platform._get_target principal target_id with
    | .error _ => some w
    | .ok target =>
      let id := w.platform.nextId
      let record := { record with org_id := principal.org_id, target_id := target.id }
      some (w.onPlatform { w.platform with
        records := w.platform.records ++ [{ id, record }], nextId := id + 1 })
  | .create_assessment principal body =>
    some (w.onPlatform (w.platform.rest_create_assessment principal body).platform)
  | .start_assessment principal id =>
    some (w.onPlatform (w.platform.rest_start_assessment principal id).platform)
  | .message_send user_name m =>
    some (w.onPlatform (w.platform.execute json_loads user_name m).platform)
  | .tasks_cancel user_name id => some (w.onPlatform (w.platform.cancel user_name id).platform)
  | .connect_spec_url principal target_id body =>
    some (w.fetch (Workbench.connect_spec_url w.platform principal target_id body))
  | .connect_repo principal target_id body =>
    some (w.fetch (Workbench.connect_repo w.platform principal target_id body))
  | .fetched i check connect reply =>
    w.fetching[i]?.map fun c ↦
      let w := { w with fetching := w.fetching.eraseIdx i }
      match (_guarded_fetch c.body.url check connect reply).2 with
      | .error _ => w
      | .ok content => w.onPlatform (_create_assessment_with_artifact w.platform c content)
  | .ci_webhook principal target_id body =>
    some ((w.ci_webhook principal target_id body).toOption.getD w)
  | .retest principal id body => some ((w.retest principal id body).toOption.getD w)
  | .run id state ends =>
    some (w.onPlatform { w.platform with
      assessments := w.platform.assessments.map fun a ↦ if a.id = id then { a with state } else a
      running := if ends then w.platform.running.filter (· ≠ id) else w.platform.running })

end

end Workbench

/-! ### What binds an assessment -/

theorem idText_inj {a b : ℕ} (h : idText a = idText b) : a = b := by
  have hdigits : Nat.toDigits 10 a = Nat.toDigits 10 b := by
    rw [← Nat.toList_repr, ← Nat.toList_repr]
    exact h
  rw [← Nat.ofDigitChars_ten_toDigits (n := a), hdigits, Nat.ofDigitChars_ten_toDigits]

/-- The columns of an assessment that no call rewrites. -/
structure Binding where
  id : ℕ
  org_id : ℕ
  target_id : ℕ
  authorization_id : ℕ
  deriving DecidableEq, Repr

def AssessmentRow.binding (a : AssessmentRow) : Binding := ⟨a.id, a.org_id, a.target_id, a.authorization_id⟩

/-- What discovery reads of an artifact. -/
def DiscoveryArtifact.document (a : DiscoveryArtifact) : Text × Text × Text × Text :=
  (a.kind, a.filename, a.content, a.endpoint_url)

namespace Platform

def bindings (p : Platform) : List Binding := p.assessments.map AssessmentRow.binding

/-- The documents of an assessment. -/
def documents (p : Platform) (id : ℕ) : List (Text × Text × Text × Text) :=
  (p.artifacts.filter (·.assessment_id = id)).map DiscoveryArtifact.document

/-- **What the service demands of a new assessment**: the target and the authorization record are of its
organization, and the record is one of the target and verified. -/
structure Bound (p : Platform) (org_id target_id authorization_id : ℕ) : Prop where
  target : ∃ t, p.getTarget (idText target_id) = some t ∧ t.id = target_id ∧ t.org_id = org_id
  record : ∃ r, p.getRecord (idText authorization_id) = some r ∧ r.id = authorization_id ∧
    r.record.org_id = org_id ∧ r.record.target_id = target_id ∧
    r.record.status = VerificationStatus.VERIFIED.value

/-- A call that adds no assessment: targets and records may come, and what binds an assessment is kept. -/
structure Keeps (p p' : Platform) : Prop where
  targets : p.targets <+: p'.targets
  records : p.records <+: p'.records
  artifacts : p'.artifacts = p.artifacts
  bindings : p'.bindings = p.bindings
  nextId : p.nextId ≤ p'.nextId

variable {p p' p'' : Platform} {principal : Principal}

theorem Keeps.refl (p : Platform) : Keeps p p :=
  ⟨List.prefix_rfl, List.prefix_rfl, rfl, rfl, le_rfl⟩

theorem Keeps.trans (h : Keeps p p') (h' : Keeps p' p'') : Keeps p p'' :=
  ⟨h.targets.trans h'.targets, h.records.trans h'.records, h'.artifacts.trans h.artifacts,
    h'.bindings.trans h.bindings, h.nextId.trans h'.nextId⟩

/-- The first row under an id stays the first. -/
theorem find?_extend {α : Type} {q : α → Bool} {l l' : List α} {a : α} (h : l <+: l')
    (ha : l.find? q = some a) : l'.find? q = some a := by
  obtain ⟨rest, rfl⟩ := h
  rw [List.find?_append, ha, Option.some_or]

theorem Bound.extend {org_id target_id authorization_id : ℕ} (h : p.Bound org_id target_id authorization_id)
    (htargets : p.targets <+: p'.targets) (hrecords : p.records <+: p'.records) :
    p'.Bound org_id target_id authorization_id := by
  obtain ⟨t, ht, hrest⟩ := h.target
  obtain ⟨r, hr, hrest'⟩ := h.record
  exact ⟨⟨t, find?_extend htargets ht, hrest⟩, ⟨r, find?_extend hrecords hr, hrest'⟩⟩

theorem keeps_start_assessment (p : Platform) (id : ℕ) : Keeps p (p.start_assessment id).1 := by
  rw [start_assessment]
  split
  · exact .refl p
  · exact ⟨List.prefix_rfl, List.prefix_rfl, rfl, rfl, le_rfl⟩

theorem keeps_startIf (start : Bool) (p : Platform) (id : ℕ) : Keeps p (p.startIf start id) := by
  rw [startIf]
  split
  · exact keeps_start_assessment p id
  · exact .refl p

/-- Rewriting columns of rows that bind nothing. -/
theorem keeps_map {f : AssessmentRow → AssessmentRow} (hf : ∀ a ∈ p.assessments, (f a).binding = a.binding)
    (running : List ℕ) : Keeps p { p with assessments := p.assessments.map f, running } := by
  refine ⟨List.prefix_rfl, List.prefix_rfl, rfl, ?_, le_rfl⟩
  show (p.assessments.map f).map AssessmentRow.binding = p.assessments.map AssessmentRow.binding
  rw [List.map_map]
  exact List.map_congr_left hf

/-! ### What the lookups find -/

theorem getTarget_spec {id : Text} {t : Target} (h : p.getTarget id = some t) : idText t.id = id := by
  rw [getTarget] at h
  simpa using List.find?_some h

theorem getRecord_spec {id : Text} {r : AuthorizationRow} (h : p.getRecord id = some r) :
    idText r.id = id := by
  rw [getRecord] at h
  simpa using List.find?_some h

theorem _get_target_ok {target_id : Text} {t : Target} (h : p._get_target principal target_id = .ok t) :
    p.getTarget target_id = some t ∧ t.org_id = principal.org_id := by
  rw [_get_target] at h
  split at h
  · cases h
  next t' hfind =>
    obtain rfl := Except.ok.inj h
    obtain ⟨hget, horg⟩ := Option.filter_eq_some_iff.1 hfind
    exact ⟨hget, of_decide_eq_true horg⟩

theorem _verified_authz_ok {target_id authorization_id : Text} {r : AuthorizationRow}
    (h : p._verified_authz principal target_id authorization_id = .ok r) :
    p.getRecord authorization_id = some r ∧ r.record.org_id = principal.org_id ∧
      idText r.record.target_id = target_id ∧ r.record.status = VerificationStatus.VERIFIED.value := by
  rw [_verified_authz] at h
  split at h
  · cases h
  next r' hfind =>
    split at h
    · cases h
    next hverified =>
      obtain rfl := Except.ok.inj h
      obtain ⟨hget, hrow⟩ := Option.filter_eq_some_iff.1 hfind
      obtain ⟨horg, htarget⟩ := of_decide_eq_true hrow
      exact ⟨hget, horg, htarget, not_not.1 hverified⟩

/-- The checks of the connectors are those of the service. -/
theorem bound_of_checks {target_id authorization_id : Text} {t : Target} {r : AuthorizationRow}
    (ht : p._get_target principal target_id = .ok t)
    (hr : p._verified_authz principal target_id authorization_id = .ok r) :
    p.Bound principal.org_id t.id r.id := by
  obtain ⟨hget, horg⟩ := _get_target_ok ht
  obtain ⟨hget', horg', htarget, hverified⟩ := _verified_authz_ok hr
  have hid := getTarget_spec hget
  have hid' := getRecord_spec hget'
  exact ⟨⟨t, by rw [hid, hget], rfl, horg⟩,
    ⟨r, by rw [hid', hget'], rfl, horg', idText_inj (htarget.trans hid.symm), hverified⟩⟩

/-- What the service adds. -/
theorem create_assessment_spec [UnicodeTables] {org_id : ℕ} {target_id authorization_id : Text}
    {classes : List Text} {artifacts : List Dict} {a : AssessmentRow}
    (h : p.create_assessment org_id target_id authorization_id classes artifacts = .ok (p', a)) :
    ∃ t r, p.Bound org_id t r ∧ p' = p.addAssessment org_id t r classes
      (artifacts.map (artifactRow org_id p.nextId)) := by
  rw [create_assessment] at h
  split at h
  · cases h
  next t htarget =>
  split at h
  · cases h
  next r hrow =>
  split at h
  · cases h
  next hverified =>
    obtain ⟨hget, horg⟩ := Option.filter_eq_some_iff.1 htarget
    obtain ⟨hget', hrec⟩ := Option.filter_eq_some_iff.1 hrow
    obtain ⟨horg', htid⟩ := of_decide_eq_true hrec
    have hid := getTarget_spec hget
    have hid' := getRecord_spec hget'
    refine ⟨t.id, r.id, ⟨⟨t, by rw [hid, hget], rfl, of_decide_eq_true horg⟩,
      ⟨r, by rw [hid', hget'], rfl, horg', htid, not_not.1 hverified⟩⟩, ?_⟩
    exact (Prod.mk.inj (Except.ok.inj h)).1.symm

end Platform

namespace Workbench

variable {w w' : Workbench} {principal : Principal}

/-- An assessment retests another. -/
def Retests (w : Workbench) (id previous_id : ℕ) : Prop := (id, previous_id) ∈ w.previous

/-- The tables hang together. -/
structure Inv (w : Workbench) : Prop where
  fresh : ∀ b ∈ w.platform.bindings, b.id < w.platform.nextId
  nodup : (w.platform.bindings.map Binding.id).Nodup
  bound : ∀ b ∈ w.platform.bindings, w.platform.Bound b.org_id b.target_id b.authorization_id
  fetching : ∀ c ∈ w.fetching, w.platform.Bound c.org_id c.target_id c.authorization_id
  artifacts : ∀ art ∈ w.platform.artifacts, art.assessment_id < w.platform.nextId
  lineage : ∀ id prev, w.Retests id prev → prev < id ∧ ∃ a ∈ w.platform.bindings,
    ∃ b ∈ w.platform.bindings, a.id = id ∧ b.id = prev ∧ b.org_id = a.org_id ∧ b.target_id = a.target_id
  documents : ∀ id prev, w.Retests id prev → w.platform.documents id = w.platform.documents prev

theorem Inv.init : Inv {} where
  fresh _ hb := by cases hb
  nodup := List.nodup_nil
  bound _ hb := by cases hb
  fetching _ hc := by cases hc
  artifacts _ hart := by cases hart
  lineage _ _ he := by cases he
  documents _ _ he := by cases he

/-- A call that adds no assessment. -/
theorem Inv.keeps (h : Inv w) {p : Platform} (hp : w.platform.Keeps p) : Inv (w.onPlatform p) where
  fresh b hb := (h.fresh b (hp.bindings ▸ hb)).trans_le hp.nextId
  nodup := by
    show (p.bindings.map Binding.id).Nodup
    rw [hp.bindings]
    exact h.nodup
  bound b hb := (h.bound b (hp.bindings ▸ hb)).extend hp.targets hp.records
  fetching c hc := (h.fetching c hc).extend hp.targets hp.records
  artifacts art hart := (h.artifacts art (hp.artifacts ▸ hart)).trans_le hp.nextId
  lineage id prev he := by
    show prev < id ∧ ∃ a ∈ p.bindings, ∃ b ∈ p.bindings, a.id = id ∧ b.id = prev ∧
      b.org_id = a.org_id ∧ b.target_id = a.target_id
    rw [hp.bindings]
    exact h.lineage id prev he
  documents id prev he := by
    show p.documents id = p.documents prev
    rw [Platform.documents, Platform.documents, hp.artifacts]
    exact h.documents id prev he

/-- The documents of the assessments that are there are kept. -/
theorem documents_addAssessment {p : Platform} {org_id target_id authorization_id : ℕ}
    {requested : List Text} {arts : List DiscoveryArtifact}
    (harts : ∀ art ∈ arts, art.assessment_id = p.nextId) {id : ℕ} (hid : id ≠ p.nextId) :
    (p.addAssessment org_id target_id authorization_id requested arts).documents id = p.documents id := by
  have hnone : arts.filter (·.assessment_id = id) = [] :=
    List.filter_eq_nil_iff.2 fun art hart h ↦
      hid ((of_decide_eq_true h).symm.trans (harts art hart))
  show ((p.artifacts ++ arts).filter (·.assessment_id = id)).map _ = _
  rw [List.filter_append, hnone, List.append_nil]
  rfl

/-- The new assessment has the documents it is added with. -/
theorem documents_new (h : Inv w) {org_id target_id authorization_id : ℕ} {requested : List Text}
    {arts : List DiscoveryArtifact} (harts : ∀ art ∈ arts, art.assessment_id = w.platform.nextId) :
    (w.platform.addAssessment org_id target_id authorization_id requested arts).documents
      w.platform.nextId = arts.map DiscoveryArtifact.document := by
  have hnone : w.platform.artifacts.filter (·.assessment_id = w.platform.nextId) = [] :=
    List.filter_eq_nil_iff.2 fun art hart hid ↦
      (h.artifacts art hart).ne (of_decide_eq_true hid)
  have hall : arts.filter (·.assessment_id = w.platform.nextId) = arts :=
    List.filter_eq_self.2 fun art hart ↦ decide_eq_true (harts art hart)
  show ((w.platform.artifacts ++ arts).filter (·.assessment_id = w.platform.nextId)).map _ = _
  rw [List.filter_append, hnone, List.nil_append, hall]

/-- An assessment is added, and what it retests is noted. -/
theorem Inv.add (h : Inv w) {org_id target_id authorization_id : ℕ} {requested : List Text}
    {arts : List DiscoveryArtifact} (hbound : w.platform.Bound org_id target_id authorization_id)
    (harts : ∀ art ∈ arts, art.assessment_id = w.platform.nextId) {previous : List (ℕ × ℕ)}
    (hprevious : ∀ e ∈ previous, e.1 = w.platform.nextId ∧
      (∃ b ∈ w.platform.bindings, b.id = e.2 ∧ b.org_id = org_id ∧ b.target_id = target_id) ∧
      arts.map DiscoveryArtifact.document = w.platform.documents e.2) :
    Inv { w with
      platform := w.platform.addAssessment org_id target_id authorization_id requested arts
      previous := w.previous ++ previous } := by
  have hbindings : (w.platform.addAssessment org_id target_id authorization_id requested arts).bindings =
      w.platform.bindings ++ [⟨w.platform.nextId, org_id, target_id, authorization_id⟩] := List.map_append
  have hkept : ∀ {o t a : ℕ}, w.platform.Bound o t a →
      (w.platform.addAssessment org_id target_id authorization_id requested arts).Bound o t a :=
    fun hb ↦ hb.extend List.prefix_rfl List.prefix_rfl
  -- what is there has a smaller id than what is added
  have hold : ∀ id prev, w.Retests id prev → id < w.platform.nextId ∧ prev < w.platform.nextId := by
    intro id prev he
    obtain ⟨-, a, ha, b, hb, rfl, rfl, -⟩ := h.lineage id prev he
    exact ⟨h.fresh a ha, h.fresh b hb⟩
  constructor
  · intro b hb
    rw [hbindings] at hb
    show b.id < w.platform.nextId + 1
    rcases List.mem_append.1 hb with hb | hb
    · exact Nat.lt_succ_of_lt (h.fresh b hb)
    · rw [List.mem_singleton.1 hb]
      exact Nat.lt_succ_self _
  · show ((w.platform.addAssessment org_id target_id authorization_id requested arts).bindings.map
      Binding.id).Nodup
    rw [hbindings, List.map_append, List.map_singleton]
    refine h.nodup.append (List.nodup_singleton _) ?_
    rw [List.disjoint_singleton]
    intro hmem
    obtain ⟨b, hb, hid⟩ := List.mem_map.1 hmem
    exact (h.fresh b hb).ne hid
  · intro b hb
    rw [hbindings] at hb
    rcases List.mem_append.1 hb with hb | hb
    · exact hkept (h.bound b hb)
    · rw [List.mem_singleton.1 hb]
      exact hkept hbound
  · exact fun c hc ↦ hkept (h.fetching c hc)
  · intro art hart
    show art.assessment_id < w.platform.nextId + 1
    rcases List.mem_append.1 hart with hart | hart
    · exact Nat.lt_succ_of_lt (h.artifacts art hart)
    · rw [harts art hart]
      exact Nat.lt_succ_self _
  · intro id prev he
    show prev < id ∧ ∃ a ∈ (w.platform.addAssessment org_id target_id authorization_id requested
      arts).bindings, ∃ b ∈ (w.platform.addAssessment org_id target_id authorization_id requested
      arts).bindings, a.id = id ∧ b.id = prev ∧ b.org_id = a.org_id ∧ b.target_id = a.target_id
    rw [hbindings]
    rcases List.mem_append.1 he with he | he
    · obtain ⟨hlt, a, ha, b, hb, hrest⟩ := h.lineage id prev he
      exact ⟨hlt, a, List.mem_append_left _ ha, b, List.mem_append_left _ hb, hrest⟩
    · obtain ⟨rfl, ⟨b, hb, rfl, horg, htarget⟩, -⟩ := hprevious _ he
      exact ⟨h.fresh b hb, _, List.mem_append_right _ (List.mem_singleton.2 rfl), b,
        List.mem_append_left _ hb, rfl, rfl, horg, htarget⟩
  · intro id prev he
    show (w.platform.addAssessment org_id target_id authorization_id requested arts).documents id =
      (w.platform.addAssessment org_id target_id authorization_id requested arts).documents prev
    rcases List.mem_append.1 he with he | he
    · obtain ⟨hid, hprev⟩ := hold id prev he
      rw [documents_addAssessment harts hid.ne, documents_addAssessment harts hprev.ne]
      exact h.documents id prev he
    · obtain ⟨rfl, ⟨b, hb, rfl, -⟩, hdocuments⟩ := hprevious _ he
      rw [documents_new h harts, documents_addAssessment harts (h.fresh b hb).ne]
      exact hdocuments

/-- An assessment is added that retests none. -/
theorem Inv.addAssessment (h : Inv w) {org_id target_id authorization_id : ℕ} {requested : List Text}
    {arts : List DiscoveryArtifact} (hbound : w.platform.Bound org_id target_id authorization_id)
    (harts : ∀ art ∈ arts, art.assessment_id = w.platform.nextId) :
    Inv (w.onPlatform
      (w.platform.addAssessment org_id target_id authorization_id requested arts)) := by
  have hadd := @Inv.add w h org_id target_id authorization_id requested arts hbound harts []
    fun e he ↦ by cases he
  rw [List.append_nil] at hadd
  exact hadd

/-- A retest is added. -/
theorem Inv.addRetest (h : Inv w) {org_id target_id authorization_id : ℕ} {requested : List Text}
    (hbound : w.platform.Bound org_id target_id authorization_id) {prev : AssessmentRow}
    (hprev : prev ∈ w.platform.assessments) (horg : prev.org_id = org_id)
    (htarget : prev.target_id = target_id) :
    Inv (w.addRetest org_id target_id authorization_id requested prev) := by
  refine h.add hbound (fun art hart ↦ ?_) fun e he ↦ ?_
  · obtain ⟨art', -, rfl⟩ := List.mem_map.1 hart
    rfl
  · obtain rfl := List.mem_singleton.1 he
    refine ⟨rfl, ⟨prev.binding, List.mem_map_of_mem hprev, rfl, horg, htarget⟩, ?_⟩
    rw [Platform.carried, List.map_map]
    rfl

/-! ### What each call does -/

/-- The fetches that are going on may change, as long as what they will add is bound. -/
theorem Inv.withFetching (h : Inv w) {fetching : List Connector}
    (hfetching : ∀ c ∈ fetching, w.platform.Bound c.org_id c.target_id c.authorization_id) :
    Inv { w with fetching } where
  fresh := h.fresh
  nodup := h.nodup
  bound := h.bound
  fetching := hfetching
  artifacts := h.artifacts
  lineage := h.lineage
  documents := h.documents

theorem connectWith_ok {required : String} {p : Platform} {target_id : Text} {body : ConnectorBody}
    {c : Connector} (h : connectWith required p principal target_id body = .ok c) :
    p.Bound c.org_id c.target_id c.authorization_id := by
  obtain ⟨-, -, h⟩ := exists_of_bind_eq_ok h
  split at h
  · cases h
  · obtain ⟨target, htarget, h⟩ := exists_of_bind_eq_ok h
    obtain ⟨row, hrow, h⟩ := exists_of_bind_eq_ok h
    obtain rfl := Except.ok.inj h
    exact Platform.bound_of_checks htarget hrow

theorem Inv.fetch (h : Inv w) {x : Except HTTPException Connector}
    (hx : ∀ c, x = .ok c → w.platform.Bound c.org_id c.target_id c.authorization_id) :
    Inv (w.fetch x) := by
  cases x with
  | error e => exact h
  | ok c =>
    refine h.withFetching fun c' hc' ↦ ?_
    rcases List.mem_append.1 hc' with hc' | hc'
    · exact h.fetching c' hc'
    · rw [List.mem_singleton.1 hc']
      exact hx c rfl

theorem Inv.fetched (h : Inv w) {i : ℕ} {c : Connector} (hc : w.fetching[i]? = some c) (content : Text) :
    Inv (({ w with fetching := w.fetching.eraseIdx i } : Workbench).onPlatform
      (_create_assessment_with_artifact w.platform c content)) := by
  have hbound := h.fetching c (List.mem_of_getElem? hc)
  have herased : Inv { w with fetching := w.fetching.eraseIdx i } :=
    h.withFetching fun c' hc' ↦ h.fetching c' (List.mem_of_mem_eraseIdx hc')
  refine (herased.addAssessment hbound fun art hart ↦ ?_).keeps (Platform.keeps_startIf _ _ _)
  rw [List.mem_singleton.1 hart]

section

variable [u : UnicodeTables]

theorem Inv.create (h : Inv w) {org_id : ℕ} {target_id authorization_id : Text} {classes : List Text}
    {artifacts : List Dict} {p : Platform} {a : AssessmentRow}
    (hp : w.platform.create_assessment org_id target_id authorization_id classes artifacts =
      .ok (p, a)) : Inv (w.onPlatform p) := by
  obtain ⟨t, r, hbound, rfl⟩ := Platform.create_assessment_spec hp
  refine h.addAssessment hbound fun art hart ↦ ?_
  obtain ⟨art', -, rfl⟩ := List.mem_map.1 hart
  rfl

theorem Inv.rest_create (h : Inv w) (body : Platform.AssessmentCreate) :
    Inv (w.onPlatform (w.platform.rest_create_assessment principal body).platform) := by
  rw [Platform.rest_create_assessment]
  split
  · exact h
  split
  · exact h
  next p a hp => exact h.create hp

theorem Inv.message_send (h : Inv w) {json_loads : Text → Option Json} (user_name : Option ℕ)
    (m : A2aMessage) : Inv (w.onPlatform (w.platform.execute json_loads user_name m).platform) := by
  cases user_name with
  | none => exact h
  | some org_id =>
    simp only [Platform.execute]
    split
    · exact h
    split
    · split
      · exact h
      next p a hp => exact (h.create hp).keeps (Platform.keeps_start_assessment p a.id)
    · exact h

omit u

/-- Two rows under one id are bound alike. -/
theorem Inv.binding_eq (h : Inv w) {a b : AssessmentRow} (ha : a ∈ w.platform.assessments)
    (hb : b ∈ w.platform.assessments) (hid : b.id = a.id) : b.binding = a.binding :=
  List.inj_on_of_nodup_map h.nodup (List.mem_map_of_mem hb) (List.mem_map_of_mem ha) hid

/-- Writing the columns of one row that bind nothing. -/
theorem Inv.keeps_write (h : Inv w) {a : AssessmentRow} (ha : a ∈ w.platform.assessments)
    (row : AssessmentRow) (hrow : row.binding = a.binding) (running : List ℕ) :
    w.platform.Keeps { w.platform with
      assessments := w.platform.assessments.map fun b ↦ if b.id = a.id then row else b, running } := by
  refine Platform.keeps_map (fun b hb ↦ ?_) running
  split
  next hid => exact hrow.trans (h.binding_eq ha hb hid).symm
  next => rfl

theorem Inv.rest_start (h : Inv w) (assessment_id : Text) :
    Inv (w.onPlatform (w.platform.rest_start_assessment principal assessment_id).platform) := by
  rw [Platform.rest_start_assessment]
  split
  · exact h
  split
  · exact h
  next a hfind =>
  split
  · exact h
  · have ha : a ∈ w.platform.assessments :=
      List.mem_of_find?_eq_some (Option.filter_eq_some_iff.1 hfind).1
    have hwrite := h.keeps_write ha { a with cancel_requested := false, error := "" } rfl w.platform.running
    exact h.keeps (hwrite.trans (Platform.keeps_start_assessment _ _))

theorem Inv.tasks_cancel (h : Inv w) (user_name : Option ℕ) (assessment_id : Text) :
    Inv (w.onPlatform (w.platform.cancel user_name assessment_id).platform) := by
  cases user_name with
  | none => exact h
  | some org_id =>
    simp only [Platform.cancel]
    split
    · exact h
    next a hfind =>
      have ha : a ∈ w.platform.assessments :=
        List.mem_of_find?_eq_some (Option.filter_eq_some_iff.1 hfind).1
      exact h.keeps (h.keeps_write ha
        { a with
          cancel_requested := true
          state := if a.id ∈ w.platform.running then a.state else .CANCELLED } rfl w.platform.running)

theorem Inv.ci_webhook (h : Inv w) {target_id : Text} {body : CiBody}
    (hw : w.ci_webhook principal target_id body = .ok w') : Inv w' := by
  obtain ⟨-, -, hw⟩ := exists_of_bind_eq_ok hw
  obtain ⟨target, htarget, hw⟩ := exists_of_bind_eq_ok hw
  split at hw
  · cases hw
  next prev hprev =>
    obtain ⟨row, hrow, hw⟩ := exists_of_bind_eq_ok hw
    rw [← Except.ok.inj hw]
    have hmem := List.mem_of_getLast? hprev
    obtain ⟨hmem, hown⟩ := List.mem_filter.1 hmem
    obtain ⟨htid, horg⟩ := of_decide_eq_true hown
    have hbound := Platform.bound_of_checks htarget hrow
    exact (h.addRetest hbound hmem horg htid).keeps (Platform.keeps_startIf _ _ _)

theorem Inv.retest (h : Inv w) {assessment_id : Text} {body : RetestCreate}
    (hw : w.retest principal assessment_id body = .ok w') : Inv w' := by
  obtain ⟨-, -, hw⟩ := exists_of_bind_eq_ok hw
  obtain ⟨prev, hprev, hw⟩ := exists_of_bind_eq_ok hw
  rw [← Except.ok.inj hw]
  rw [Platform._get_assessment] at hprev
  split at hprev
  · cases hprev
  next a hfind =>
    obtain rfl := Except.ok.inj hprev
    obtain ⟨hget, horg⟩ := Option.filter_eq_some_iff.1 hfind
    have hmem : a ∈ w.platform.assessments := List.mem_of_find?_eq_some hget
    have horg : a.org_id = principal.org_id := of_decide_eq_true horg
    -- the authorization is not looked at again: it is the one the previous assessment is bound to
    have hbound : w.platform.Bound principal.org_id a.target_id a.authorization_id :=
      horg ▸ h.bound _ (List.mem_map_of_mem hmem)
    exact h.addRetest hbound hmem horg rfl

end

/-- **Every call keeps the tables together.** -/
theorem Inv.step [UnicodeTables] {json_loads : Text → Option Json} (h : Inv w) {e : WorkbenchEvent}
    (hs : w.step json_loads e = some w') : Inv w' := by
  cases e with
  | create_target row =>
    rw [← Option.some.inj hs]
    exact h.keeps ⟨List.prefix_append _ _, List.prefix_rfl, rfl, rfl, Nat.le_succ _⟩
  | create_authorization principal target_id record =>
    simp only [Workbench.step] at hs
    split at hs
    · exact Option.some.inj hs ▸ h
    · rw [← Option.some.inj hs]
      exact h.keeps ⟨List.prefix_rfl, List.prefix_append _ _, rfl, rfl, Nat.le_succ _⟩
  | create_assessment principal body => exact Option.some.inj hs ▸ h.rest_create body
  | start_assessment principal id => exact Option.some.inj hs ▸ h.rest_start id
  | message_send user_name m => exact Option.some.inj hs ▸ h.message_send user_name m
  | tasks_cancel user_name id => exact Option.some.inj hs ▸ h.tasks_cancel user_name id
  | connect_spec_url principal target_id body =>
    exact Option.some.inj hs ▸ h.fetch fun c hc ↦ connectWith_ok hc
  | connect_repo principal target_id body =>
    exact Option.some.inj hs ▸ h.fetch fun c hc ↦ connectWith_ok hc
  | fetched i check connect reply =>
    obtain ⟨c, hc, rfl⟩ := Option.map_eq_some_iff.1 hs
    dsimp only
    split
    · exact h.withFetching fun c' hc' ↦ h.fetching c' (List.mem_of_mem_eraseIdx hc')
    next content _ => exact h.fetched hc content
  | ci_webhook principal target_id body =>
    rw [← Option.some.inj hs]
    cases hw : w.ci_webhook principal target_id body with
    | error e => exact h
    | ok w' => exact h.ci_webhook hw
  | retest principal id body =>
    rw [← Option.some.inj hs]
    cases hw : w.retest principal id body with
    | error e => exact h
    | ok w' => exact h.retest hw
  | run id state ends =>
    rw [← Option.some.inj hs]
    refine h.keeps (Platform.keeps_map (fun a _ ↦ ?_) _)
    split <;> rfl

/-- Back along the retests to an assessment that is none. -/
theorem Inv.exists_root (h : Inv w) {a : AssessmentRow} (ha : a ∈ w.platform.assessments) :
    ∃ r ∈ w.platform.assessments, Relation.ReflTransGen w.Retests a.id r.id ∧
      (∀ id, ¬w.Retests r.id id) ∧ r.org_id = a.org_id ∧ r.target_id = a.target_id ∧
      w.platform.documents r.id = w.platform.documents a.id := by
  induction hid : a.id using Nat.strong_induction_on generalizing a with
  | _ n ih =>
    subst hid
    by_cases hretest : ∃ prev, w.Retests a.id prev
    · obtain ⟨prev, hprev⟩ := hretest
      obtain ⟨hlt, ba, hba, bb, hbb, hida, rfl, horg, htarget⟩ := h.lineage _ _ hprev
      obtain ⟨b, hb, rfl⟩ := List.mem_map.1 hbb
      obtain ⟨a', ha', rfl⟩ := List.mem_map.1 hba
      have hsame : a'.binding = a.binding := h.binding_eq ha ha' hida
      obtain ⟨r, hr, hchain, hroot, horg', htarget', hdocuments⟩ := ih b.id hlt hb rfl
      refine ⟨r, hr, .head hprev hchain, hroot, ?_, ?_, hdocuments.trans (h.documents _ _ hprev).symm⟩
      · exact (horg'.trans horg).trans (congrArg Binding.org_id hsame)
      · exact (htarget'.trans htarget).trans (congrArg Binding.target_id hsame)
    · exact ⟨a, ha, .refl, fun id hid ↦ hretest ⟨id, hid⟩, rfl, rfl, rfl⟩

/-- **Every assessment is bound.** Whatever calls of whatever callers interleave, every assessment there is
belongs to a target of its organization and to an authorization record of that target which is verified; and
what it retests goes back to an assessment that is no retest, of the same organization and target, whose
artifacts it has. -/
theorem bound_of_run [UnicodeTables] {json_loads : Text → Option Json} {es : List WorkbenchEvent}
    (h : Machine.run (step json_loads) {} es = some w) :
    ∀ a ∈ w.platform.assessments, w.platform.Bound a.org_id a.target_id a.authorization_id ∧
      ∃ r ∈ w.platform.assessments, Relation.ReflTransGen w.Retests a.id r.id ∧
        (∀ id, ¬w.Retests r.id id) ∧ r.org_id = a.org_id ∧ r.target_id = a.target_id ∧
        w.platform.documents r.id = w.platform.documents a.id := by
  have hinv : Inv w := Machine.inv_of_run (I := Inv) (fun hI hs ↦ hI.step hs) h .init
  exact fun a ha ↦ ⟨hinv.bound a.binding (List.mem_map_of_mem ha), hinv.exists_root ha⟩

end Workbench

section

attribute [local instance] asciiTables

/-- A connector, the webhook while another connector fetches, and a retest of what the webhook made. -/
def retestedRun : List WorkbenchEvent :=
  let operator : Principal := ⟨1, 1, .OPERATOR, .jwt⟩
  let body : ConnectorBody := {
    url := "https://app.example/spec.json".toList, authorization_id := "1".toList }
  [.create_target {
      id := 0
      org_id := 1
      name := "app".toList
      base_url := "https://app.example".toList
      environment := "lab"
      description := [] },
    .create_authorization operator "0".toList sampleRecord,
    .connect_spec_url operator "0".toList body,
    .fetched 0 sampleAnswer sampleAnswer (.ok (200, "openapi: 3.0.0".toList)),
    .connect_repo operator "0".toList body,
    .ci_webhook operator "0".toList {},
    .retest operator "3".toList {},
    .fetched 0 sampleAnswer sampleAnswer (.ok (200, "swagger: 2.0".toList))]

theorem bound_of_run_retested : ∃ w,
    Machine.run (Workbench.step fun _ ↦ none) {} retestedRun = some w ∧
    w.previous = [(3, 2), (4, 3)] ∧ w.platform.assessments.length = 4 ∧
    ∀ a ∈ w.platform.assessments, w.platform.Bound a.org_id a.target_id a.authorization_id ∧
      ∃ r ∈ w.platform.assessments, Relation.ReflTransGen w.Retests a.id r.id ∧
        (∀ id, ¬w.Retests r.id id) ∧ r.org_id = a.org_id ∧ r.target_id = a.target_id ∧
        w.platform.documents r.id = w.platform.documents a.id := by
  obtain ⟨w, h, hprevious, hlength⟩ : ∃ w,
      Machine.run (Workbench.step fun _ ↦ none) {} retestedRun = some w ∧
      w.previous = [(3, 2), (4, 3)] ∧ w.platform.assessments.length = 4 := by
    decide +kernel
  exact ⟨w, h, hprevious, hlength, Workbench.bound_of_run h⟩

end

end Sentrik
