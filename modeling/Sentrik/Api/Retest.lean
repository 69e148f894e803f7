import Sentrik.Orchestration.Dossier

/-!
# Comparing a retest with its predecessor

The comparison is a set difference of deduplication keys: a key that was open and is not open now is
listed as fixed. That a key is not open now has many causes, and nothing here looks at which it was.

`Untested` are the causes that leave a pair of an endpoint and a class untested, read off the rows of the
retest; between them they are all there are. The rest is that a run keeps at most one finding under a key.
-/

namespace Sentrik

/-- Whether a finding is open. -/
def Finding.isOpen (f : Finding) : Bool := [.CONFIRMED, .SUSPECTED].contains f.status

namespace Retest

/-! ### The handler -/

/-- The set of open keys, in the order of their first occurrence. -/
def openKeys (findings : List Finding) : List Text :=
  ((findings.filter (·.isOpen)).map (·.dedup_key)).dedup

def fixedKeys (prev_findings new_findings : List Finding) : List Text :=
  (openKeys prev_findings).filter (· ∉ openKeys new_findings)

structure Comparison where
  previous_assessment_id : ℕ
  fixed : ℕ
  still_open : ℕ
  newly_introduced : ℕ
  fixed_keys : List Text
  still_open_keys : List Text
  newly_introduced_keys : List Text
  deriving DecidableEq, Repr

/-- `GET /v1/assessments/{id}/regression-compare`, for an assessment of the caller's organization. Up to
200 keys of a kind are listed. -/
def regression_compare (previous_assessment_id : Option ℕ) (findingsOf : ℕ → List Finding)
    (assessment_id : ℕ) : Except HTTPException Comparison :=
  match previous_assessment_id with
  | none => .error { status_code := 400, detail := "assessment is not a retest" }
  | some previous =>
    let prev_open := openKeys (findingsOf previous)
    let new_open := openKeys (findingsOf assessment_id)
    let fixed := fixedKeys (findingsOf previous) (findingsOf assessment_id)
    let still_open := prev_open.filter (· ∈ new_open)
    let newly := new_open.filter (· ∉ prev_open)
    .ok {
      previous_assessment_id := previous
      fixed := fixed.length
      still_open := still_open.length
      newly_introduced := newly.length
      fixed_keys := fixed.take 200
      still_open_keys := still_open.take 200
      newly_introduced_keys := newly.take 200 }

/-! ### What a retest has executed -/

/-- The fingerprint of the endpoint a finding is on. -/
def fingerprintOf (d : Dossier) (f : Finding) : Text :=
  ((f.endpoint_id.bind fun id ↦ d.engine.endpoints.find? (·.id = id)).map (·.fingerprint)).getD []

/-- The steps of a class on the endpoints with a fingerprint. -/
def stepsOn (o : Orchestrator) (fingerprint : Text) (check_class : String) : List PlanStep :=
  o.steps.filter fun s ↦ s.check_class = check_class ∧
    ∃ e ∈ o.endpoints, e.fingerprint = fingerprint ∧ e.id = s.endpoint_id

/-- A check ran for the pair, and its step is done. -/
def Executed (o : Orchestrator) (fingerprint : Text) (check_class : String) : Prop :=
  ∃ s ∈ stepsOn o fingerprint check_class, s.status = .done ∧ ∃ v ∈ o.invocations, v.step.id = s.id

instance (o : Orchestrator) (fingerprint : Text) (check_class : String) :
    Decidable (Executed o fingerprint check_class) :=
  inferInstanceAs (Decidable (∃ s ∈ _, _))

/-- **Why a pair is untested.** -/
inductive Untested (o : Orchestrator) (fingerprint : Text) (check_class : String) : Prop
  /-- The retest has no such endpoint. -/
  | unreached (h : ∀ e ∈ o.endpoints, e.fingerprint ≠ fingerprint)
  /-- It has the endpoint, and no step of the class for it: the class is not tested, or the run is
  incremental and skips the endpoint. -/
  | unplanned (e : Endpoint) (he : e ∈ o.endpoints) (fp : e.fingerprint = fingerprint)
    (h : stepsOn o fingerprint check_class = [])
  /-- No such step is done: each is not judged yet, skipped, denied, held, not executed yet, or failed. -/
  | unfinished (s : PlanStep) (hs : s ∈ stepsOn o fingerprint check_class)
    (h : ∀ s ∈ stepsOn o fingerprint check_class, s.status ≠ .done)
  /-- Such a step is done, and no check ran for any that is. -/
  | uninvoked (s : PlanStep) (hs : s ∈ stepsOn o fingerprint check_class) (hdone : s.status = .done)
    (h : ∀ s ∈ stepsOn o fingerprint check_class, s.status = .done →
      ∀ v ∈ o.invocations, v.step.id ≠ s.id)

/-- The causes are exhaustive. -/
theorem not_untested_iff {o : Orchestrator} {fingerprint : Text} {check_class : String} :
    ¬Untested o fingerprint check_class ↔ Executed o fingerprint check_class := by
  constructor
  · intro h
    by_contra hnot
    have huninvoked : ∀ s ∈ stepsOn o fingerprint check_class, s.status = .done →
        ∀ v ∈ o.invocations, v.step.id ≠ s.id :=
      fun s hs hdone v hv hid ↦ hnot ⟨s, hs, hdone, v, hv, hid⟩
    by_cases hreached : ∃ e ∈ o.endpoints, e.fingerprint = fingerprint
    · obtain ⟨e, he, hfp⟩ := hreached
      cases hsteps : stepsOn o fingerprint check_class with
      | nil => exact h (.unplanned e he hfp hsteps)
      | cons s rest =>
        have hs : s ∈ stepsOn o fingerprint check_class := hsteps ▸ List.mem_cons_self
        by_cases hdone : ∃ r ∈ stepsOn o fingerprint check_class, r.status = .done
        · obtain ⟨r, hr, hrdone⟩ := hdone
          exact h (.uninvoked r hr hrdone huninvoked)
        · exact h (.unfinished s hs fun r hr hrdone ↦ hdone ⟨r, hr, hrdone⟩)
    · exact h (.unreached fun e he hfp ↦ hreached ⟨e, he, hfp⟩)
  · rintro ⟨s, hs, hdone, v, hv, hid⟩ huntested
    cases huntested with
    | unreached h =>
      obtain ⟨e, he, hfp, -⟩ := (of_decide_eq_true (List.mem_filter.1 hs).2).2
      exact h e he hfp
    | unplanned e he hfp h =>
      rw [h] at hs
      cases hs
    | unfinished r hr h => exact h s hs hdone
    | uninvoked r hr hrdone h => exact h s hs hdone v hv hid

/-! ### Fixed means retested -/

/-- Whether a finding of the retest leaves its key in doubt. -/
def Doubtful (new : Dossier) (key : Text) (status : FindingStatus) : Prop :=
  ∃ g ∈ new.findings, g.dedup_key = key ∧ g.status = status

instance (new : Dossier) (key : Text) (status : FindingStatus) : Decidable (Doubtful new key status) :=
  inferInstanceAs (Decidable (∃ g ∈ _, _))

/-- **Fixed means retested**: every key that is listed as fixed, of whatever open finding it was, belongs
to a pair that was executed, and no finding under it is suspected or inconclusive. -/
def FixedMeansRetested (prev new : Dossier) : Prop :=
  ∀ key ∈ fixedKeys prev.findings new.findings, ∀ f ∈ prev.findings, f.isOpen = true →
    f.dedup_key = key →
      Executed new.engine (fingerprintOf prev f) f.check_class ∧
        ¬Doubtful new key .SUSPECTED ∧ ¬Doubtful new key .INCONCLUSIVE

/-- **The condition**: of every finding that was open before, no finding under its key is inconclusive
now, and it is found open again, or nothing left its pair untested. -/
def Retested (prev new : Dossier) : Prop :=
  ∀ f ∈ prev.findings, f.isOpen = true → ¬Doubtful new f.dedup_key .INCONCLUSIVE ∧
    ((∃ g ∈ new.findings, g.dedup_key = f.dedup_key ∧ g.isOpen = true) ∨
      ¬Untested new.engine (fingerprintOf prev f) f.check_class)

theorem mem_openKeys {findings : List Finding} {key : Text} :
    key ∈ openKeys findings ↔ ∃ g ∈ findings, g.dedup_key = key ∧ g.isOpen = true := by
  rw [openKeys, List.mem_dedup, List.mem_map]
  constructor
  · rintro ⟨g, hg, hkey⟩
    obtain ⟨hmem, hopen⟩ := List.mem_filter.1 hg
    exact ⟨g, hmem, hkey, hopen⟩
  · rintro ⟨g, hmem, hkey, hopen⟩
    exact ⟨g, List.mem_filter.2 ⟨hmem, hopen⟩, hkey⟩

theorem mem_fixedKeys {prev_findings new_findings : List Finding} {key : Text} :
    key ∈ fixedKeys prev_findings new_findings ↔
      key ∈ openKeys prev_findings ∧ key ∉ openKeys new_findings := by
  rw [fixedKeys, List.mem_filter, decide_eq_true_iff]

/-- A key that is suspected now is open. -/
theorem open_of_suspected {new : Dossier} {key : Text} (h : Doubtful new key .SUSPECTED) :
    key ∈ openKeys new.findings := by
  obtain ⟨g, hg, hkey, hstatus⟩ := h
  refine mem_openKeys.2 ⟨g, hg, hkey, ?_⟩
  rw [Finding.isOpen, hstatus]
  decide

end Retest

namespace Dossier

section

variable {digest : Text → Text} {registry : _Registry} {record : AuthorizationRecord}
variable {settings : Settings} [u : UnicodeTables] {d d' : Dossier}

/-! ### One finding under a key -/

/-- The keys of the findings. -/
def keys (d : Dossier) : List Text := d.findings.map (·.dedup_key)

omit u in
theorem nodup_persist (endpoint : Endpoint) (rf : RawFinding) (h : d.keys.Nodup) :
    (_persist_finding digest endpoint d rf).keys.Nodup := by
  rw [_persist_finding]
  split
  · exact h
  next hnew =>
    rw [keys, List.map_append, List.nodup_append]
    refine ⟨h, List.nodup_singleton _, fun k hk k' hk' heq ↦ hnew ?_⟩
    obtain ⟨f, hf, hkey⟩ := List.mem_map.1 hk
    refine List.any_eq_true.2 ⟨f, hf, decide_eq_true ?_⟩
    rw [hkey, heq, List.mem_singleton.1 hk']

omit u in
theorem nodup_foldl_persist (endpoint : Endpoint) (found : List RawFinding) (h : d.keys.Nodup) :
    (found.foldl (_persist_finding digest endpoint) d).keys.Nodup := by
  induction found generalizing d with
  | nil => exact h
  | cons rf found ih => exact ih (nodup_persist endpoint rf h)

omit u in
/-- Rewriting findings under the keys they have. -/
theorem nodup_of_map {f : Finding → Finding} (hf : ∀ g, (f g).dedup_key = g.dedup_key)
    (hfindings : d'.findings = d.findings.map f) (h : d.keys.Nodup) : d'.keys.Nodup := by
  have hkeys : d'.keys = d.keys := by
    rw [keys, keys, hfindings, List.map_map]
    exact List.map_congr_left fun g _ ↦ hf g
  rw [hkeys]
  exact h

omit u in
theorem nodup_rows {e : EngineEvent} {found : List RawFinding} (h : d.keys.Nodup)
    (hrows : rows digest record settings d e found = some d') : d'.keys.Nodup := by
  rw [rows] at hrows
  cases hscorer : e.scorer with
  | some who =>
    rw [hscorer] at hrows
    dsimp only at hrows
    split at hrows
    · rw [← Option.some.inj hrows]
      exact nodup_of_map (f := fun f ↦ { f with risk_score := scoreOf record d.engine.endpoints f })
        (fun _ ↦ rfl) rfl h
    · cases hrows
  | none =>
    rw [hscorer] at hrows
    dsimp only at hrows
    cases hdelivered : d.engine.delivered e with
    | none =>
      rw [hdelivered] at hrows
      rw [← Option.some.inj hrows]
      split
      · exact List.nodup_nil
      · exact h
    | some t =>
      rw [hdelivered] at hrows
      dsimp only at hrows
      rw [_persist_agent_result] at hrows
      split at hrows
      · exact Option.some.inj hrows ▸ h
      · obtain ⟨endpoint, -, rfl⟩ := Option.map_eq_some_iff.1 hrows
        exact nodup_foldl_persist endpoint found h

omit u in
theorem nodup_setStatus (finding_id : ℕ) (status : FindingStatus) (h : d.keys.Nodup) :
    (d.setStatus finding_id status).keys.Nodup := by
  refine nodup_of_map (f := fun f ↦ if f.id = finding_id then { f with status } else f) (fun g ↦ ?_)
    rfl h
  split <;> rfl

/-- **A run keeps at most one finding under a key.** -/
theorem nodup_of_step {e : DossierEvent} (h : d.keys.Nodup)
    (hs : step digest registry record settings d e = some d') : d'.keys.Nodup := by
  rw [step] at hs
  obtain ⟨d₁, hact, rfl⟩ := Option.map_eq_some_iff.1 hs
  suffices hd₁ : d₁.keys.Nodup from hd₁
  cases e with
  | engine e found =>
    obtain ⟨o', -, hrows⟩ := Option.bind_eq_some_iff.1 hact
    obtain ⟨d₂, hd₂, rfl⟩ := Option.map_eq_some_iff.1 hrows
    have hnodup : d₂.keys.Nodup := nodup_rows h hd₂
    exact hnodup
  | suppress who =>
    rw [act] at hact
    split at hact
    · rw [← Option.some.inj hact]
      refine nodup_of_map (f := Workspace.suppress d.known) (fun g ↦ ?_) rfl h
      rw [Workspace.suppress]
      split <;> rfl
    · cases hact
  | validate who finding_id outcome =>
    rw [act] at hact
    split at hact
    · exact Option.some.inj hact ▸ nodup_setStatus finding_id outcome h
    · cases hact
  | triage finding_id status =>
    rw [act] at hact
    split at hact
    · obtain ⟨f, -, rfl⟩ := Option.map_eq_some_iff.1 hact
      exact nodup_setStatus finding_id status h
    · cases hact
  | known keys => exact Option.some.inj hact ▸ h

theorem nodup_of_run {assessment_id org_id : ℕ} {requested : List String} {incremental : Bool}
    {prev : Option (List Text)} {es : List DossierEvent}
    (h : Machine.run (step digest registry record settings)
      (created assessment_id org_id requested incremental prev) es = some d) : d.keys.Nodup :=
  Machine.inv_of_run nodup_of_step h List.nodup_nil

end

end Dossier

namespace Retest

variable {digest : Text → Text} {registry : _Registry} {record : AuthorizationRecord}
variable {settings : Settings} [u : UnicodeTables]

omit u in
/-- Where keys are distinct, a key that is inconclusive is not open. -/
theorem not_open_of_inconclusive {new : Dossier} {key : Text} (hkeys : new.keys.Nodup)
    (h : Doubtful new key .INCONCLUSIVE) : key ∉ openKeys new.findings := by
  intro hopen
  obtain ⟨g, hg, hkey, hstatus⟩ := h
  obtain ⟨g', hg', hkey', hopen'⟩ := mem_openKeys.1 hopen
  have heq : g' = g := List.inj_on_of_nodup_map hkeys hg' hg (hkey'.trans hkey.symm)
  rw [Finding.isOpen, heq, hstatus] at hopen'
  exact absurd hopen' (by decide)

end Retest

/-! ### Sample runs -/

namespace Retest

attribute [local instance] asciiTables

/-- The previous assessment: its finding is confirmed by the operator. -/
def previousRun : List DossierEvent := foundRun ++ [.triage 0 .CONFIRMED] ++ throughScoring

/-- A retest that runs the check again, and finds nothing. -/
def cleanRun : List DossierEvent :=
  (throughPolicy [sampleEndpoint] ++ throughDispatch ++ runAgent 0 ++
    throughReplan ["security_headers"] ++ [.main (.enter 0)] : List EngineEvent).map (.engine · []) ++
    throughScoring

/-- An incremental retest of an unchanged surface: nothing is planned, and the run completes. -/
def skippingRun : List DossierEvent :=
  (throughPolicy [sampleEndpoint] ++
    [.main (.enter 0), .main (.coordinate false), .main (.enter 0)] : List EngineEvent).map
    (.engine · []) ++ throughScoring

end Retest

end Sentrik
