import Sentrik.Library.Machine
import Sentrik.Api.Assessments

/-!
# Triage and what it leaves behind

An operator sets the status of a finding. A rejection leaves a second trace: a row of the project memory,
under the deduplication key of the finding, which every later scoring of every assessment of the target
reads. Accepting or reopening the finding changes the finding alone.

The tables are those of one database; runs store findings, validate them and score at any moment between
two calls. `decisions` records what was decided, the latest first, and nothing reads it but the
specification.
-/

namespace Sentrik

/-! ### Rows -/

/-- A finding, with what triage, validation and scoring read and write. -/
structure Finding where
  id : ℕ
  assessment_id : ℕ
  endpoint_id : Option ℕ := none
  check_class : String
  severity : Severity := .MEDIUM
  confidence : Confidence := .MEDIUM
  status : FindingStatus := .SUSPECTED
  dedup_key : Text
  risk_score : ℚ := 0
  deriving DecidableEq, Repr

/-- A fact an assessment carries forward, without its value. -/
structure ProjectMemory where
  id : ℕ
  org_id : ℕ
  target_id : Option ℕ
  key : Text
  kind : Text := "note".toList
  deriving DecidableEq, Repr

/-- Whose memory a mark is in, and for which finding. -/
structure MarkKey where
  org_id : ℕ
  target_id : ℕ
  dedup_key : Text
  deriving DecidableEq, Repr

/-- The key of a finding of an assessment. -/
def Finding.markKey (f : Finding) (a : AssessmentRow) : MarkKey := ⟨a.org_id, a.target_id, f.dedup_key⟩

structure Workspace where
  assessments : List AssessmentRow := []
  findings : List Finding := []
  memory : List ProjectMemory := []
  nextId : ℕ := 0
  decisions : List (MarkKey × FindingStatus) := []

def KNOWN_FP : Text := "known_fp:".toList

/-- The statuses an operator can set. -/
def TRIAGE_STATUSES : List FindingStatus := [.REJECTED, .CONFIRMED, .SUSPECTED]

/-! ### The handlers -/

namespace Workspace

def _get_assessment (w : Workspace) (principal : Principal) (assessment_id : ℕ) :
    Except HTTPException AssessmentRow :=
  match (w.assessments.find? (·.id = assessment_id)).filter (·.org_id = principal.org_id) with
  | some a => .ok a
  | none => .error { status_code := 404, detail := "assessment not found" }

def setStatus (w : Workspace) (finding_id : ℕ) (status : FindingStatus) : Workspace :=
  { w with findings := w.findings.map fun f ↦ if f.id = finding_id then { f with status } else f }

/-- Note a decision. -/
def noteDecision (w : Workspace) (k : MarkKey) (status : FindingStatus) : Workspace :=
  { w with decisions := (k, status) :: w.decisions }

/-- Record a rejection as a known false positive. -/
def remember (w : Workspace) (k : MarkKey) : Workspace :=
  { w with
    memory := w.memory ++ [{
      id := w.nextId
      org_id := k.org_id
      target_id := some k.target_id
      key := KNOWN_FP ++ k.dedup_key
      kind := "false_positive".toList }]
    nextId := w.nextId + 1 }

structure TriageReply where
  finding_id : ℕ
  status : FindingStatus
  previous : FindingStatus

/-- The status a body names, in any case. -/
def triageStatus [u : UnicodeTables] (status : Text) : Option FindingStatus :=
  TRIAGE_STATUSES.find? (·.value.toList = u.lower status)

/-- `POST /v1/assessments/{id}/findings/{id}/triage`; `status` is the text of the body's field. -/
def triage_finding [UnicodeTables] (w : Workspace) (principal : Principal)
    (assessment_id finding_id : ℕ) (status : Text) :
    Except HTTPException (Workspace × TriageReply) := do
  principal.require_role .OPERATOR
  let a ← w._get_assessment principal assessment_id
  match (w.findings.find? (·.id = finding_id)).filter (·.assessment_id = assessment_id) with
  | none => throw { status_code := 404, detail := "finding not found" }
  | some finding =>
    match triageStatus status with
    | none =>
      throw {
        status_code := 422
        detail := "status must be one of ['confirmed', 'rejected', 'suspected']" }
    | some new_status =>
      let k : MarkKey := ⟨principal.org_id, a.target_id, finding.dedup_key⟩
      let w := (w.setStatus finding_id new_status).noteDecision k new_status
      let w := if new_status = .REJECTED then w.remember k else w
      return (w, { finding_id, status := new_status, previous := finding.status })

/-- The rows of an organization for a target under a key. -/
def rowsFor (org_id : ℕ) (target_id : Option ℕ) (key : Text) (r : ProjectMemory) : Bool :=
  r.org_id = org_id ∧ r.target_id = target_id ∧ r.key = key

/-- `PUT /v1/memory`, without the value. -/
def upsert_memory (w : Workspace) (principal : Principal) (target_id : Option ℕ) (key : Text)
    (kind : Option Text) : Except HTTPException Workspace := do
  principal.require_role .OPERATOR
  if key = [] then throw { status_code := 422, detail := "'key' is required" }
  match w.memory.filter (rowsFor principal.org_id target_id key) with
  | [] =>
    return { w with
      memory := w.memory ++
        [{ id := w.nextId, org_id := principal.org_id, target_id, key, kind := kind.getD "note".toList }]
      nextId := w.nextId + 1 }
  | [existing] =>
    return { w with
      memory := w.memory.map fun r ↦
        if rowsFor principal.org_id target_id key r then { r with kind := kind.getD existing.kind }
        else r }
  | _ => throw { status_code := 500, detail := "Internal Server Error" }

/-- `DELETE /v1/memory/{id}`. -/
def delete_memory (w : Workspace) (principal : Principal) (memory_id : ℕ) :
    Except HTTPException Workspace := do
  principal.require_role .OPERATOR
  match (w.memory.find? (·.id = memory_id)).filter (·.org_id = principal.org_id) with
  | none => throw { status_code := 404, detail := "not found" }
  | some _ => return { w with memory := w.memory.filter (·.id ≠ memory_id) }

/-! ### Scoring -/

/-- The keys that are known false positives of a target. -/
def known_keys (w : Workspace) (org_id target_id : ℕ) : List Text :=
  (w.memory.filter fun r ↦ r.org_id = org_id ∧ r.target_id = some target_id ∧
      r.kind = "false_positive".toList ∧ KNOWN_FP.isPrefixOf r.key).map (·.key.drop KNOWN_FP.length)

/-- What scoring does to a finding first. -/
def suppress (known : List Text) (f : Finding) : Finding :=
  if f.dedup_key ∈ known ∧ f.status ≠ .REJECTED then { f with status := .REJECTED } else f

/-- Scoring begins by rejecting the findings of the assessment whose keys are known. -/
def _apply_known_false_positives (w : Workspace) (assessment_id : ℕ) : Workspace :=
  match w.assessments.find? (·.id = assessment_id) with
  | none => w
  | some a =>
    { w with findings := w.findings.map fun f ↦
        if f.assessment_id = assessment_id then suppress (w.known_keys a.org_id a.target_id) f else f }

/-! ### The machine -/

/-- A run stores a finding, unless it has one of this key. -/
def _persist_finding (w : Workspace) (assessment_id : ℕ) (endpoint_id : Option ℕ)
    (check_class : String) (severity : Severity) (confidence : Confidence) (dedup_key : Text) :
    Workspace :=
  if w.findings.any fun f ↦ f.assessment_id = assessment_id ∧ f.dedup_key = dedup_key then w
  else
    { w with
      findings := w.findings ++ [{
        id := w.nextId, assessment_id, endpoint_id, check_class, severity, confidence, dedup_key }]
      nextId := w.nextId + 1 }

end Workspace

/-- What happens to the tables. -/
inductive WorkspaceEvent
  | create (org_id target_id authorization_id : ℕ)
  | triage (principal : Principal) (assessment_id finding_id : ℕ) (status : Text)
  | score (assessment_id : ℕ)
  | persist (assessment_id : ℕ) (endpoint_id : Option ℕ) (check_class : String) (severity : Severity)
    (confidence : Confidence) (dedup_key : Text)
  | validated (finding_id : ℕ) (outcome : FindingStatus)
  /-- The startup sweep deletes the findings of an assessment it restarts. -/
  | restart (assessment_id : ℕ)
  | upsert_memory (principal : Principal) (target_id : Option ℕ) (key : Text) (kind : Option Text)
  | delete_memory (principal : Principal) (memory_id : ℕ)

namespace Workspace

section

variable [u : UnicodeTables]

/-- A call that is refused leaves no state. -/
def step (w : Workspace) : WorkspaceEvent → Option Workspace
  | .create org_id target_id authorization_id =>
    some { w with
      assessments := w.assessments ++ [{ id := w.nextId, org_id, target_id, authorization_id }]
      nextId := w.nextId + 1 }
  | .triage principal assessment_id finding_id status =>
    ((w.triage_finding principal assessment_id finding_id status).map Prod.fst).toOption
  | .score assessment_id => some (w._apply_known_false_positives assessment_id)
  | .persist assessment_id endpoint_id check_class severity confidence dedup_key =>
    some (w._persist_finding assessment_id endpoint_id check_class severity confidence dedup_key)
  | .validated finding_id outcome => some (w.setStatus finding_id outcome)
  | .restart assessment_id =>
    some { w with findings := w.findings.filter (·.assessment_id ≠ assessment_id) }
  | .upsert_memory principal target_id key kind =>
    (w.upsert_memory principal target_id key kind).toOption
  | .delete_memory principal memory_id => (w.delete_memory principal memory_id).toOption

/-! ### The latest decision -/

/-- The latest decision on a key. -/
def latest (w : Workspace) (k : MarkKey) : Option FindingStatus :=
  (w.decisions.find? (·.1 = k)).map Prod.snd

/-- A key that was last accepted or reopened. -/
def Reopened (w : Workspace) (k : MarkKey) : Prop :=
  w.latest k = some .CONFIRMED ∨ w.latest k = some .SUSPECTED

instance (w : Workspace) (k : MarkKey) : Decidable (w.Reopened k) :=
  inferInstanceAs (Decidable (_ ∨ _))

/-- A key that is marked as a known false positive. -/
def Marked (w : Workspace) (k : MarkKey) : Prop := k.dedup_key ∈ w.known_keys k.org_id k.target_id

instance (w : Workspace) (k : MarkKey) : Decidable (w.Marked k) :=
  inferInstanceAs (Decidable (_ ∈ _))

/-- **The latest decision wins** in a scoring of the assessment: a finding whose key was last accepted or
reopened, and that is not rejected, is as it was. -/
def LatestWins (w : Workspace) (assessment_id : ℕ) : Prop :=
  ∀ a ∈ w.assessments.find? (·.id = assessment_id), ∀ f ∈ w.findings,
    f.assessment_id = assessment_id → w.Reopened (f.markKey a) → f.status ≠ .REJECTED →
      f ∈ (w._apply_known_false_positives assessment_id).findings

instance (w : Workspace) (assessment_id : ℕ) : Decidable (w.LatestWins assessment_id) :=
  inferInstanceAs (Decidable (∀ a ∈ _, _))

/-- Whether a status accepts or reopens. -/
def reopens (status : Option FindingStatus) : Bool :=
  status = some .CONFIRMED ∨ status = some .SUSPECTED

/-- **The condition on a step**: a finding is accepted or reopened only while its key is not marked, and no
mark is written by hand for a key that was last accepted or reopened. -/
def Agrees (w : Workspace) : WorkspaceEvent → Prop
  | .triage _ assessment_id finding_id status =>
    ∀ a ∈ w.assessments.find? (·.id = assessment_id), ∀ f ∈ w.findings.find? (·.id = finding_id),
      reopens (triageStatus status) = true → ¬w.Marked (f.markKey a)
  | .upsert_memory principal target_id key kind =>
    kind = some "false_positive".toList → ∀ d ∈ w.decisions, w.Reopened d.1 →
      ¬(d.1.org_id = principal.org_id ∧ target_id = some d.1.target_id ∧
        key = KNOWN_FP ++ d.1.dedup_key)
  | _ => True

instance (w : Workspace) (e : WorkspaceEvent) : Decidable (w.Agrees e) := by
  cases e with
  | triage principal assessment_id finding_id status =>
    exact inferInstanceAs (Decidable (∀ a ∈ w.assessments.find? _, ∀ f ∈ w.findings.find? _, _ → _))
  | upsert_memory principal target_id key kind =>
    exact inferInstanceAs (Decidable (_ → ∀ d ∈ w.decisions, _))
  | _ => exact inferInstanceAs (Decidable True)

/-! ### Marks -/

omit u in
/-- A key is marked by a row of the memory. -/
theorem marked_iff {w : Workspace} {k : MarkKey} :
    w.Marked k ↔ ∃ r ∈ w.memory, r.org_id = k.org_id ∧ r.target_id = some k.target_id ∧
      r.kind = "false_positive".toList ∧ r.key = KNOWN_FP ++ k.dedup_key := by
  rw [Marked, known_keys, List.mem_map]
  constructor
  · rintro ⟨r, hr, hkey⟩
    obtain ⟨hmem, hrow⟩ := List.mem_filter.1 hr
    obtain ⟨horg, htarget, hkind, hprefix⟩ := of_decide_eq_true hrow
    obtain ⟨rest, hrest⟩ := List.isPrefixOf_iff_prefix.1 hprefix
    rw [← hrest, List.drop_left] at hkey
    exact ⟨r, hmem, horg, htarget, hkind, by rw [← hrest, hkey]⟩
  · rintro ⟨r, hmem, horg, htarget, hkind, hkey⟩
    have hprefix : KNOWN_FP.isPrefixOf r.key = true :=
      List.isPrefixOf_iff_prefix.2 ⟨k.dedup_key, hkey.symm⟩
    refine ⟨r, List.mem_filter.2 ⟨hmem, decide_eq_true ⟨horg, htarget, hkind, hprefix⟩⟩, ?_⟩
    rw [hkey, List.drop_left]

omit u in
/-- Scoring leaves a finding alone whose key is not marked. -/
theorem suppress_of_not_marked {w : Workspace} {a : AssessmentRow} {f : Finding}
    (h : ¬w.Marked (f.markKey a)) : suppress (w.known_keys a.org_id a.target_id) f = f := by
  rw [suppress, if_neg]
  exact fun hknown ↦ h hknown.1

omit u in
/-- And rejects one whose key is marked. -/
theorem suppress_of_marked {w : Workspace} {a : AssessmentRow} {f : Finding}
    (h : w.Marked (f.markKey a)) : (suppress (w.known_keys a.org_id a.target_id) f).status = .REJECTED := by
  rw [suppress]
  split
  next => rfl
  next hknown =>
    by_contra hstatus
    exact hknown ⟨h, hstatus⟩

/-! ### What the handlers do -/

/-- What a triage call that succeeds has found, and what it leaves. -/
structure Triaged (w : Workspace) (principal : Principal) (assessment_id finding_id : ℕ)
    (status : Text) (a : AssessmentRow) (f : Finding) (new_status : FindingStatus)
    (w' : Workspace) : Prop where
  assessment : w.assessments.find? (·.id = assessment_id) = some a
  org : a.org_id = principal.org_id
  finding : w.findings.find? (·.id = finding_id) = some f
  owner : f.assessment_id = assessment_id
  status : triageStatus status = some new_status
  after : w' =
    if new_status = .REJECTED then
      ((w.setStatus finding_id new_status).noteDecision (f.markKey a) new_status).remember (f.markKey a)
    else (w.setStatus finding_id new_status).noteDecision (f.markKey a) new_status

omit u in
theorem _get_assessment_ok {w : Workspace} {principal : Principal} {assessment_id : ℕ}
    {a : AssessmentRow} (h : w._get_assessment principal assessment_id = .ok a) :
    w.assessments.find? (·.id = assessment_id) = some a ∧ a.org_id = principal.org_id := by
  rw [_get_assessment] at h
  split at h
  next b hb =>
    obtain ⟨hfind, horg⟩ := Option.filter_eq_some_iff.1 hb
    rw [← Except.ok.inj h]
    exact ⟨hfind, of_decide_eq_true horg⟩
  next => cases h

theorem triaged_of_step {w w' : Workspace} {principal : Principal} {assessment_id finding_id : ℕ}
    {status : Text} (h : step w (.triage principal assessment_id finding_id status) = some w') :
    ∃ a f new_status, Triaged w principal assessment_id finding_id status a f new_status w' := by
  rw [step, triage_finding] at h
  cases hrole : principal.require_role .OPERATOR with
  | error e =>
    rw [hrole] at h
    cases h
  | ok x =>
    cases ha : w._get_assessment principal assessment_id with
    | error e =>
      rw [hrole, ha] at h
      cases h
    | ok a =>
      rw [hrole, ha] at h
      obtain ⟨hassessment, horg⟩ := _get_assessment_ok ha
      cases hf : (w.findings.find? (·.id = finding_id)).filter (·.assessment_id = assessment_id) with
      | none =>
        rw [hf] at h
        cases h
      | some f =>
        obtain ⟨hfind, howner⟩ := Option.filter_eq_some_iff.1 hf
        cases hstatus : triageStatus status with
        | none =>
          rw [hf, hstatus] at h
          cases h
        | some new_status =>
          rw [hf, hstatus] at h
          refine ⟨a, f, new_status, hassessment, horg, hfind, of_decide_eq_true howner, hstatus, ?_⟩
          rw [Finding.markKey, horg]
          exact (Option.some.inj h).symm

omit u in
/-- A mark that is there after a step was there before, or is the row that was written. -/
theorem marked_of_memory {w w' : Workspace} {k : MarkKey}
    (h : ∀ r ∈ w'.memory, r ∈ w.memory ∨ ¬(r.org_id = k.org_id ∧ r.target_id = some k.target_id ∧
      r.kind = "false_positive".toList ∧ r.key = KNOWN_FP ++ k.dedup_key))
    (hmarked : w'.Marked k) : w.Marked k := by
  obtain ⟨r, hr, hrow⟩ := marked_iff.1 hmarked
  rcases h r hr with hold | hnot
  · exact marked_iff.2 ⟨r, hold, hrow⟩
  · exact absurd hrow hnot

omit u in
theorem ok_of_toOption {α : Type} {x : Except HTTPException α} {a : α} (h : x.toOption = some a) :
    x = .ok a := by
  cases x with
  | error e => cases h
  | ok b => rw [Option.some.inj h]

omit u in
/-- Deleting a row adds none. -/
theorem memory_of_delete {w w' : Workspace} {principal : Principal} {memory_id : ℕ}
    (h : w.delete_memory principal memory_id = .ok w') :
    w'.decisions = w.decisions ∧ w'.memory.Sublist w.memory := by
  rw [delete_memory] at h
  cases hrole : principal.require_role .OPERATOR with
  | error e =>
    rw [hrole] at h
    cases h
  | ok x =>
    rw [hrole] at h
    cases hrow : (w.memory.find? (·.id = memory_id)).filter (·.org_id = principal.org_id) with
    | none =>
      rw [hrow] at h
      cases h
    | some row =>
      rw [hrow] at h
      rw [← Except.ok.inj h]
      exact ⟨rfl, List.filter_sublist⟩

omit u in
/-- An upsert writes one row, for the organization of the caller and under the key it is given. -/
theorem memory_of_upsert {w w' : Workspace} {principal : Principal} {target_id : Option ℕ} {key : Text}
    {kind : Option Text} (h : w.upsert_memory principal target_id key kind = .ok w') :
    w'.decisions = w.decisions ∧ ∀ r ∈ w'.memory, r ∈ w.memory ∨
      ((r.org_id = principal.org_id ∧ r.target_id = target_id ∧ r.key = key) ∧
        (kind = some r.kind ∨ r.kind = "note".toList)) := by
  rw [upsert_memory] at h
  cases hrole : principal.require_role .OPERATOR with
  | error e =>
    rw [hrole] at h
    cases h
  | ok x =>
    rw [hrole] at h
    by_cases hkey : key = []
    · rw [if_pos hkey] at h
      cases h
    rw [if_neg hkey] at h
    cases hrows : w.memory.filter (rowsFor principal.org_id target_id key) with
    | nil =>
      rw [hrows] at h
      rw [← Except.ok.inj h]
      refine ⟨rfl, fun r hr ↦ (List.mem_append.1 hr).imp_right fun hnew ↦ ?_⟩
      obtain rfl := List.mem_singleton.1 hnew
      cases kind with
      | none => exact ⟨⟨rfl, rfl, rfl⟩, Or.inr rfl⟩
      | some kind => exact ⟨⟨rfl, rfl, rfl⟩, Or.inl rfl⟩
    | cons existing rest =>
      cases rest with
      | cons second rest =>
        rw [hrows] at h
        cases h
      | nil =>
        rw [hrows] at h
        rw [← Except.ok.inj h]
        refine ⟨rfl, fun r hr ↦ ?_⟩
        obtain ⟨r₀, hr₀, rfl⟩ := List.mem_map.1 hr
        by_cases hown : rowsFor principal.org_id target_id key r₀ = true
        · rw [if_pos hown]
          have heq : r₀ = existing := by
            have hmem : r₀ ∈ w.memory.filter (rowsFor principal.org_id target_id key) :=
              List.mem_filter.2 ⟨hr₀, hown⟩
            rw [hrows] at hmem
            exact List.mem_singleton.1 hmem
          cases kind with
          | none => exact Or.inl (heq ▸ hr₀)
          | some kind => exact Or.inr ⟨of_decide_eq_true hown, Or.inl rfl⟩
        · rw [if_neg hown]
          exact Or.inl hr₀

omit u in
/-- A key that was last reopened has a decision. -/
theorem Reopened.exists_decision {w : Workspace} {k : MarkKey} (h : w.Reopened k) :
    ∃ d ∈ w.decisions, d.1 = k := by
  have hfind : ∃ status, w.latest k = some status := h.elim (fun h ↦ ⟨_, h⟩) fun h ↦ ⟨_, h⟩
  obtain ⟨status, hlatest⟩ := hfind
  obtain ⟨d, hd, -⟩ := Option.map_eq_some_iff.1 hlatest
  exact ⟨d, List.mem_of_find?_eq_some hd, by simpa using List.find?_some hd⟩

/-- Besides a triage call, a step decides nothing, and marks no key that was last reopened. -/
theorem memory_of_step {w w' : Workspace} {e : WorkspaceEvent}
    (he : ∀ principal assessment_id finding_id status,
      e ≠ .triage principal assessment_id finding_id status)
    (hA : w.Agrees e) (h : step w e = some w') :
    w'.decisions = w.decisions ∧ ∀ k, w.Reopened k → w'.Marked k → w.Marked k := by
  have hsame : ∀ {w₁ : Workspace}, w₁.decisions = w.decisions → w₁.memory = w.memory →
      w₁.decisions = w.decisions ∧ ∀ k, w.Reopened k → w₁.Marked k → w.Marked k :=
    fun hdecisions hmemory ↦ ⟨hdecisions, fun k _ ↦
      marked_of_memory fun r hr ↦ Or.inl (hmemory ▸ hr)⟩
  cases e with
  | create => exact Option.some.inj h ▸ hsame rfl rfl
  | triage principal assessment_id finding_id status => exact (he _ _ _ _ rfl).elim
  | score assessment_id =>
    rw [← Option.some.inj h, _apply_known_false_positives]
    split <;> exact hsame rfl rfl
  | persist =>
    rw [← Option.some.inj h, _persist_finding]
    split <;> exact hsame rfl rfl
  | validated => exact Option.some.inj h ▸ hsame rfl rfl
  | restart => exact Option.some.inj h ▸ hsame rfl rfl
  | upsert_memory principal target_id key kind =>
    obtain ⟨hdecisions, hmemory⟩ := memory_of_upsert (ok_of_toOption h)
    refine ⟨hdecisions, fun k hk ↦ marked_of_memory fun r hr ↦ (hmemory r hr).imp_right ?_⟩
    rintro ⟨⟨horg, htarget, hkey⟩, hkind⟩ ⟨horg', htarget', hfp, hmark⟩
    rcases hkind with hkind | hnote
    · obtain ⟨d, hd, rfl⟩ := hk.exists_decision
      exact hA (hkind.trans (congrArg some hfp)) d hd hk
        ⟨horg'.symm.trans horg, htarget.symm.trans htarget', hkey.symm.trans hmark⟩
    · rw [hnote] at hfp
      exact absurd hfp (by decide)
  | delete_memory principal memory_id =>
    obtain ⟨hdecisions, hmemory⟩ := memory_of_delete (ok_of_toOption h)
    exact ⟨hdecisions, fun k _ ↦ marked_of_memory fun r hr ↦ Or.inl (hmemory.subset hr)⟩

/-! ### The invariant -/

/-- **The invariant**: no key that was last accepted or reopened is marked. -/
def Consistent (w : Workspace) : Prop := ∀ k, w.Reopened k → ¬w.Marked k

omit u in
/-- The latest decision on a key, after one was noted. -/
theorem latest_cons {w w' : Workspace} {k₀ : MarkKey} {status : FindingStatus}
    (h : w'.decisions = (k₀, status) :: w.decisions) (k : MarkKey) :
    w'.latest k = if k₀ = k then some status else w.latest k := by
  rw [latest, h, List.find?_cons]
  by_cases hk : k₀ = k
  · rw [if_pos hk, decide_eq_true hk]
    rfl
  · rw [if_neg hk, decide_eq_false hk]
    rfl

/-- A triage call decides on the key of its finding. -/
theorem Triaged.decisions {w w' : Workspace} {principal : Principal} {assessment_id finding_id : ℕ}
    {status : Text} {a : AssessmentRow} {f : Finding} {new_status : FindingStatus}
    (hT : Triaged w principal assessment_id finding_id status a f new_status w') :
    w'.decisions = (f.markKey a, new_status) :: w.decisions := by
  rw [hT.after]
  split <;> rfl

/-- It sets the status of its finding. -/
theorem Triaged.findings {w w' : Workspace} {principal : Principal} {assessment_id finding_id : ℕ}
    {status : Text} {a : AssessmentRow} {f : Finding} {new_status : FindingStatus}
    (hT : Triaged w principal assessment_id finding_id status a f new_status w') :
    w'.findings = (w.setStatus finding_id new_status).findings := by
  rw [hT.after]
  split <;> rfl

/-- It marks no other key, and none at all unless it rejects. -/
theorem Triaged.marked {w w' : Workspace} {principal : Principal} {assessment_id finding_id : ℕ}
    {status : Text} {a : AssessmentRow} {f : Finding} {new_status : FindingStatus}
    (hT : Triaged w principal assessment_id finding_id status a f new_status w') {k : MarkKey}
    (hk : k ≠ f.markKey a ∨ new_status ≠ .REJECTED) : w'.Marked k ↔ w.Marked k := by
  by_cases hstatus : new_status = .REJECTED
  · have hne : k ≠ f.markKey a := hk.resolve_right (not_not.2 hstatus)
    rw [hT.after, if_pos hstatus]
    constructor
    · refine marked_of_memory fun r hr ↦ (List.mem_append.1 hr).imp_right fun hnew ↦ ?_
      obtain rfl := List.mem_singleton.1 hnew
      rintro ⟨horg, htarget, -, hmark⟩
      refine hne ?_
      obtain ⟨org_id, target_id, dedup_key⟩ := k
      rw [MarkKey.mk.injEq]
      exact ⟨horg.symm, (Option.some.inj htarget).symm, (List.append_cancel_left hmark).symm⟩
    · exact marked_of_memory fun r hr ↦ Or.inl (List.mem_append_left _ hr)
  · rw [hT.after, if_neg hstatus]
    exact Iff.rfl

/-- A triage call keeps the invariant, if the key is not marked when the finding is accepted or
reopened. -/
theorem Triaged.consistent {w w' : Workspace} {principal : Principal} {assessment_id finding_id : ℕ}
    {status : Text} {a : AssessmentRow} {f : Finding} {new_status : FindingStatus}
    (hT : Triaged w principal assessment_id finding_id status a f new_status w')
    (hfree : reopens (triageStatus status) = true → ¬w.Marked (f.markKey a)) (hI : w.Consistent) :
    w'.Consistent := by
  intro k hk hmarked
  rw [Reopened, latest_cons hT.decisions] at hk
  by_cases hkey : f.markKey a = k
  · rw [if_pos hkey] at hk
    have hreopens : reopens (some new_status) = true := decide_eq_true hk
    have hne : new_status ≠ .REJECTED := by
      rintro rfl
      exact absurd hreopens (by decide)
    subst hkey
    exact hfree (hT.status ▸ hreopens) ((hT.marked (Or.inr hne)).1 hmarked)
  · rw [if_neg hkey] at hk
    exact hI k hk ((hT.marked (Or.inl (Ne.symm hkey))).1 hmarked)

/-- **The step lemma.** -/
theorem Consistent.of_step {w w' : Workspace} {e : WorkspaceEvent} (hI : w.Consistent) (hA : w.Agrees e)
    (h : step w e = some w') : w'.Consistent := by
  by_cases he : ∃ principal assessment_id finding_id status,
      e = .triage principal assessment_id finding_id status
  · obtain ⟨principal, assessment_id, finding_id, status, rfl⟩ := he
    obtain ⟨a, f, new_status, hT⟩ := triaged_of_step h
    exact hT.consistent (hA a hT.assessment f hT.finding) hI
  · have hne : ∀ principal assessment_id finding_id status,
        e ≠ .triage principal assessment_id finding_id status :=
      fun principal assessment_id finding_id status heq ↦ he ⟨_, _, _, _, heq⟩
    obtain ⟨hdecisions, hmarked⟩ := memory_of_step hne hA h
    intro k hk hmark
    have hk' : w.Reopened k := by
      rw [Reopened, latest, hdecisions] at hk
      exact hk
    exact hI k hk' (hmarked k hk' hmark)

/-! ### Scoring after a decision -/

omit u in
theorem Consistent.latestWins {w : Workspace} (hI : w.Consistent) (assessment_id : ℕ) :
    w.LatestWins assessment_id := by
  intro a ha f hf howner hk _
  rw [_apply_known_false_positives, ha]
  refine List.mem_map.2 ⟨f, hf, ?_⟩
  rw [if_pos howner]
  exact suppress_of_not_marked (hI _ hk)

omit u in
theorem suppress_dedup_key (known : List Text) (f : Finding) :
    (suppress known f).dedup_key = f.dedup_key := by
  rw [suppress]
  split <;> rfl

/-- A finding that was accepted or reopened while its key was marked is rejected by the next scoring. -/
theorem Triaged.not_latestWins {w w' : Workspace} {principal : Principal}
    {assessment_id finding_id : ℕ} {status : Text} {a : AssessmentRow} {f : Finding}
    {new_status : FindingStatus}
    (hT : Triaged w principal assessment_id finding_id status a f new_status w')
    (hreopens : reopens (some new_status) = true) (hmarked : w.Marked (f.markKey a)) :
    ¬w'.LatestWins assessment_id := by
  have hne : new_status ≠ .REJECTED := by
    rintro rfl
    exact absurd hreopens (by decide)
  have hafter : w' = (w.setStatus finding_id new_status).noteDecision (f.markKey a) new_status := by
    rw [hT.after, if_neg hne]
  have hid : f.id = finding_id := by simpa using List.find?_some hT.finding
  have hassessment : w'.assessments.find? (·.id = assessment_id) = some a := by
    rw [hafter]
    exact hT.assessment
  have hmem : { f with status := new_status } ∈ w'.findings := by
    rw [hafter]
    exact List.mem_map.2 ⟨f, List.mem_of_find?_eq_some hT.finding, if_pos hid⟩
  have hmarked' : w'.Marked (f.markKey a) := (hT.marked (Or.inr hne)).2 hmarked
  have hreopened : w'.Reopened (f.markKey a) := by
    rw [Reopened, latest_cons hT.decisions, if_pos rfl]
    exact of_decide_eq_true hreopens
  intro hwins
  have hkept := hwins a hassessment _ hmem hT.owner hreopened hne
  rw [_apply_known_false_positives, hassessment] at hkept
  obtain ⟨g, -, hg⟩ := List.mem_map.1 hkept
  split at hg
  next howner =>
    -- whatever row it came from has the marked key, and was rejected
    have hkey : g.dedup_key = f.dedup_key := by
      rw [← suppress_dedup_key (w'.known_keys a.org_id a.target_id) g, hg]
    have hrejected : (suppress (w'.known_keys a.org_id a.target_id) g).status = .REJECTED :=
      suppress_of_marked (by rwa [Finding.markKey, hkey])
    rw [hg] at hrejected
    exact hne hrejected
  next howner =>
    rw [hg] at howner
    exact howner hT.owner

/-- After a triage call every scoring follows the latest decisions exactly if the call met the
condition. -/
theorem Consistent.triage_iff {w w' : Workspace} (hI : w.Consistent) {principal : Principal}
    {assessment_id finding_id : ℕ} {status : Text}
    (h : step w (.triage principal assessment_id finding_id status) = some w') :
    (∀ id, w'.LatestWins id) ↔ w.Agrees (.triage principal assessment_id finding_id status) := by
  constructor
  · obtain ⟨a, f, new_status, hT⟩ := triaged_of_step h
    intro hwins a₁ ha₁ f₁ hf₁ hreopens hmarked
    obtain rfl : a = a₁ := Option.some.inj (hT.assessment.symm.trans ha₁)
    obtain rfl : f = f₁ := Option.some.inj (hT.finding.symm.trans hf₁)
    exact hT.not_latestWins (hT.status ▸ hreopens) hmarked (hwins assessment_id)
  · intro hA id
    exact (hI.of_step hA h).latestWins id

end

section

attribute [local instance] asciiTables

/-- An operator of an organization. -/
def analyst : Principal := { org_id := 1, user_id := 1, role := .OPERATOR }

/-- A finding of an assessment is stored and triaged. -/
def triageRun (statuses : List String) : List WorkspaceEvent :=
  [.create 1 1 1, .persist 0 none "cors" .MEDIUM .HIGH "k".toList] ++
    statuses.map fun status ↦ .triage analyst 0 1 status.toList

end

end Workspace

end Sentrik
