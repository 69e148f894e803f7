import Sentrik.Orchestration.Dossier
import Sentrik.Orchestration.Surface
import Sentrik.Orchestration.Approval

/-!
# The coverage report and execution

Scoring writes the coverage report when the assessment has none, and leaves a report that is there as it
is. An assessment is scored again by every execution of steps approved later, and by a run started again
after it failed; by then endpoints may have been added and steps may have become done.

`CoverageLedger` is the orchestrator with a note of what the report was written from. `inStep_iff` says
when the report of a scoring is right: when there was none before, or when what it was written from is
what there is now.
-/

namespace Sentrik

/-- The pair a row of the report is about. -/
def Coverage.pair (c : Coverage) : ℕ × String := (c.endpoint_id, c.check_class)

/-- What scoring writes the report from. -/
structure CoverageBasis where
  endpoints : List ℕ
  done : List (ℕ × String)
  deriving DecidableEq, Repr

/-- The orchestrator, with what its report was written from. -/
structure CoverageLedger where
  engine : Orchestrator
  basis : CoverageBasis := ⟨[], []⟩

namespace Orchestrator

section

variable (registry : _Registry) (record : AuthorizationRecord)

/-- The classes the report has rows for. -/
def authorizedClasses : List String :=
  if record.allowed_check_classes ≠ [] then record.allowed_check_classes.dedup
  else registry.classes

/-- **The report is in step with execution**: it has exactly one row for each endpoint and authorized
class, and a row is tested exactly when some step for its pair is done. -/
structure InStep (o : Orchestrator) : Prop where
  rows : ∀ e ∈ o.endpoints, ∀ cclass ∈ authorizedClasses registry record,
    (o.coverage.filter fun c ↦ c.pair = (e.id, cclass)).length = 1
  only : ∀ c ∈ o.coverage, c.check_class ∈ authorizedClasses registry record ∧
    ∃ e ∈ o.endpoints, e.id = c.endpoint_id
  tested : ∀ c ∈ o.coverage, c.tested = true ↔
    ∃ s ∈ o.steps, s.endpoint_id = c.endpoint_id ∧ s.check_class = c.check_class ∧ s.status = .done

/-- What a scoring now would write the report from. -/
def basis (o : Orchestrator) : CoverageBasis := ⟨o.endpoints.map (·.id), o.pairs [.done]⟩

end

end Orchestrator

namespace CoverageLedger

section

variable (registry : _Registry) (record : AuthorizationRecord) (settings : Settings)
variable [u : UnicodeTables]

/-- A step of the orchestrator. A scoring that finds no report notes what it writes it from. -/
def step (l : CoverageLedger) (e : EngineEvent) : Option CoverageLedger :=
  (Orchestrator.step registry record settings l.engine e).map fun engine ↦
    { engine
      basis := if e.scorer.isSome ∧ l.engine.coverage = [] then l.engine.basis else l.basis }

omit u in
/-- **The condition on a scoring**: there is no report yet, or since it was written no endpoint was added
and the same pairs of an endpoint and an authorized class are done. -/
def Upheld (l : CoverageLedger) : Prop :=
  l.engine.coverage = [] ∨
    (∀ id, id ∈ l.engine.endpoints.map (·.id) ↔ id ∈ l.basis.endpoints) ∧
      ∀ id ∈ l.basis.endpoints, ∀ cclass ∈ Orchestrator.authorizedClasses registry record,
        (id, cclass) ∈ l.engine.pairs [.done] ↔ (id, cclass) ∈ l.basis.done

end

end CoverageLedger

namespace Orchestrator

variable {registry : _Registry} {record : AuthorizationRecord} {settings : Settings}
variable {o o' : Orchestrator} {m : Main} {b : CoverageBasis}

/-! ### A report and what it was written from -/

/-- The report is what scoring writes from this. -/
def Written (registry : _Registry) (record : AuthorizationRecord) (b : CoverageBasis)
    (o : Orchestrator) : Prop :=
  o.coverage.map (fun c ↦ (c.pair, c.tested)) =
    b.endpoints.flatMap fun id ↦ (authorizedClasses registry record).map fun cclass ↦
      ((id, cclass), b.done.contains (id, cclass))

theorem nodup_authorizedClasses (registry : _Registry) (record : AuthorizationRecord) :
    (authorizedClasses registry record).Nodup := by
  rw [authorizedClasses]
  split
  · exact List.nodup_dedup _
  · exact (List.perm_insertionSort _ _).nodup_iff.2 (List.nodup_dedup _)

theorem mem_done {id : ℕ} {cclass : String} : (id, cclass) ∈ o.pairs [.done] ↔
    ∃ s ∈ o.steps, s.endpoint_id = id ∧ s.check_class = cclass ∧ s.status = .done := by
  rw [pairs, List.mem_map]
  constructor
  · rintro ⟨s, hs, hpair⟩
    obtain ⟨hmem, hstatus⟩ := List.mem_filter.1 hs
    obtain ⟨hid, hclass⟩ := Prod.mk.inj hpair
    exact ⟨s, hmem, hid, hclass, by simpa using hstatus⟩
  · rintro ⟨s, hs, rfl, rfl, hstatus⟩
    exact ⟨s, List.mem_filter.2 ⟨hs, by simp [hstatus]⟩, rfl⟩

/-- A scoring that finds no report writes one. -/
theorem written_phase_score (h : o.coverage = []) :
    Written registry record o.basis (_phase_score registry record o) := by
  have hclasses : (if record.allowed_check_classes ≠ [] then record.allowed_check_classes.dedup
      else registry.classes) = authorizedClasses registry record := rfl
  rw [Written, _phase_score, hclasses, if_neg (not_not.2 h), basis, List.map_flatMap, List.flatMap_map]
  refine List.flatMap_congr fun e _ ↦ ?_
  rw [List.map_map]
  rfl

/-- A report that is there stays as it is. -/
theorem phase_score_of_coverage (h : o.coverage ≠ []) : _phase_score registry record o = o := by
  rw [_phase_score]
  exact if_pos h

namespace Written

theorem mem (hW : Written registry record b o) {id : ℕ} {cclass : String} (hid : id ∈ b.endpoints)
    (hclass : cclass ∈ authorizedClasses registry record) :
    ∃ c ∈ o.coverage, c.endpoint_id = id ∧ c.check_class = cclass ∧
      c.tested = b.done.contains (id, cclass) := by
  have hmem : ((id, cclass), b.done.contains (id, cclass)) ∈
      o.coverage.map fun c ↦ (c.pair, c.tested) := by
    rw [hW]
    exact List.mem_flatMap.2 ⟨id, hid, List.mem_map.2 ⟨cclass, hclass, rfl⟩⟩
  obtain ⟨c, hc, heq⟩ := List.mem_map.1 hmem
  obtain ⟨hpair, htested⟩ := Prod.mk.inj heq
  obtain ⟨rfl, rfl⟩ := Prod.mk.inj hpair
  exact ⟨c, hc, rfl, rfl, htested⟩

theorem of_mem (hW : Written registry record b o) {c : Coverage} (hc : c ∈ o.coverage) :
    c.endpoint_id ∈ b.endpoints ∧ c.check_class ∈ authorizedClasses registry record ∧
      c.tested = b.done.contains c.pair := by
  have hmem : (c.pair, c.tested) ∈ o.coverage.map fun c ↦ (c.pair, c.tested) :=
    List.mem_map.2 ⟨c, hc, rfl⟩
  rw [hW] at hmem
  obtain ⟨id, hid, hmem⟩ := List.mem_flatMap.1 hmem
  obtain ⟨cclass, hclass, heq⟩ := List.mem_map.1 hmem
  obtain ⟨hpair, htested⟩ := Prod.mk.inj heq
  have hpair' : (id, cclass) = (c.endpoint_id, c.check_class) := hpair
  obtain ⟨rfl, rfl⟩ := Prod.mk.inj hpair'
  exact ⟨hid, hclass, htested.symm⟩

/-- Endpoints and classes are different, so their pairs are. -/
theorem nodup (hW : Written registry record b o) (hids : b.endpoints.Nodup) :
    (o.coverage.map (·.pair)).Nodup := by
  have hpairs : o.coverage.map (·.pair) = b.endpoints ×ˢ authorizedClasses registry record := by
    have hfst := congrArg (List.map Prod.fst) hW
    rw [List.map_map, List.map_flatMap] at hfst
    refine (show o.coverage.map (·.pair) = _ from hfst).trans ?_
    refine List.flatMap_congr fun id _ ↦ ?_
    rw [List.map_map]
    rfl
  rw [hpairs]
  exact hids.product (nodup_authorizedClasses registry record)

end Written

/-- **When a report is in step**: what it was written from is what there is now. -/
theorem inStep_of_written (hW : Written registry record b o) (hids : b.endpoints.Nodup)
    (hendpoints : ∀ id, id ∈ o.endpoints.map (·.id) ↔ id ∈ b.endpoints)
    (hdone : ∀ id ∈ b.endpoints, ∀ cclass ∈ authorizedClasses registry record,
      ((id, cclass) ∈ o.pairs [.done] ↔ (id, cclass) ∈ b.done)) : InStep registry record o where
  rows e he cclass hclass := by
    have hid : e.id ∈ b.endpoints := (hendpoints e.id).1 (List.mem_map.2 ⟨e, he, rfl⟩)
    obtain ⟨c, hc, hcid, hcclass, -⟩ := hW.mem hid hclass
    have hmem : (e.id, cclass) ∈ o.coverage.map (·.pair) :=
      List.mem_map.2 ⟨c, hc, by rw [Coverage.pair, hcid, hcclass]⟩
    have hcount := List.count_eq_one_of_mem (hW.nodup hids) hmem
    rw [List.count, List.countP_map, List.countP_eq_length_filter] at hcount
    exact (congrArg List.length (List.filter_congr fun c _ ↦ by simp [beq_eq_decide])).trans hcount
  only c hc := by
    obtain ⟨hid, hclass, -⟩ := hW.of_mem hc
    obtain ⟨e, he, heq⟩ := List.mem_map.1 ((hendpoints _).2 hid)
    exact ⟨hclass, e, he, heq⟩
  tested c hc := by
    obtain ⟨hid, hclass, htested⟩ := hW.of_mem hc
    rw [htested, List.contains_iff_mem, ← mem_done]
    exact (hdone _ hid _ hclass).symm

theorem basis_of_inStep (hW : Written registry record b o) (hcoverage : o.coverage ≠ [])
    (h : InStep registry record o) :
    (∀ id, id ∈ o.endpoints.map (·.id) ↔ id ∈ b.endpoints) ∧
      ∀ id ∈ b.endpoints, ∀ cclass ∈ authorizedClasses registry record,
        ((id, cclass) ∈ o.pairs [.done] ↔ (id, cclass) ∈ b.done) := by
  obtain ⟨c₀, hc₀⟩ := List.exists_mem_of_ne_nil _ hcoverage
  obtain ⟨-, hclass₀, -⟩ := hW.of_mem hc₀
  refine ⟨fun id ↦ ⟨fun hid ↦ ?_, fun hid ↦ ?_⟩, fun id hid cclass hclass ↦ ?_⟩
  · obtain ⟨e, he, rfl⟩ := List.mem_map.1 hid
    obtain ⟨c, hc⟩ := List.length_pos_iff_exists_mem.1 (by rw [h.rows e he _ hclass₀]; exact one_pos)
    obtain ⟨hc, hpair⟩ := List.mem_filter.1 hc
    obtain ⟨hcid, -⟩ := Prod.mk.inj (of_decide_eq_true hpair)
    exact hcid ▸ (hW.of_mem hc).1
  · obtain ⟨c, hc, rfl, -⟩ := hW.mem hid hclass₀
    obtain ⟨-, e, he, heq⟩ := h.only c hc
    exact List.mem_map.2 ⟨e, he, heq⟩
  · obtain ⟨c, hc, rfl, rfl, htested⟩ := hW.mem hid hclass
    rw [mem_done, ← h.tested c hc, htested, List.contains_iff_mem]

/-! ### Between two scorings -/

/-- The inventory and the report are the same; the counter of ids may have gone on. -/
structure SameReport (o o' : Orchestrator) : Prop where
  endpoints : o'.endpoints = o.endpoints
  coverage : o'.coverage = o.coverage
  nextId : o.nextId ≤ o'.nextId

variable {o₁ : Orchestrator}

theorem SameReport.of_eq (endpoints : o'.endpoints = o.endpoints) (coverage : o'.coverage = o.coverage)
    (nextId : o'.nextId = o.nextId) : SameReport o o' :=
  ⟨endpoints, coverage, nextId.ge⟩

theorem SameReport.trans (h : SameReport o o₁) (h' : SameReport o₁ o') : SameReport o o' where
  endpoints := h'.endpoints.trans h.endpoints
  coverage := h'.coverage.trans h.coverage
  nextId := h.nextId.trans h'.nextId

theorem sameReport_closeMain (o : Orchestrator) (m : Main) : SameReport o (o.closeMain m) := by
  rw [closeMain]
  cases m.client <;> exact .of_eq rfl rfl rfl

theorem sameReport_endPhase (o : Orchestrator) (m : Main) (n : Node) :
    SameReport o (endPhase settings o m n) := by
  rw [endPhase]
  split
  · exact (sameReport_closeMain o m).trans (.of_eq rfl rfl rfl)
  · exact .of_eq rfl rfl rfl

theorem sameReport_start_assessment (o : Orchestrator) :
    SameReport o (start_assessment settings o) := by
  rw [start_assessment]
  split <;> exact .of_eq rfl rfl rfl

theorem sameReport_resume_if_parked (o : Orchestrator) :
    SameReport o (_resume_if_parked settings o) := by
  rw [_resume_if_parked]
  split
  · exact .of_eq rfl rfl rfl
  split
  · exact sameReport_start_assessment o
  · exact .of_eq rfl rfl rfl

theorem sameReport_start_approved_steps (o : Orchestrator) (step_ids : List ℕ) :
    SameReport o (o.start_approved_steps step_ids) := by
  rw [start_approved_steps]
  split <;> exact .of_eq rfl rfl rfl

theorem sameReport_enter (o : Orchestrator) (m : Main) (n : Node) (now : ℤ) :
    SameReport o (enter record settings o m n now) := by
  rw [enter.eq_def]
  dsimp only
  split
  · exact .of_eq rfl rfl rfl
  cases n with
  | authorize | discover | execute | validate =>
    dsimp only
    split <;> exact .of_eq rfl rfl rfl
  | plan | policy | score | report => exact .of_eq rfl rfl rfl

variable [u : UnicodeTables]

theorem sameReport_freeze (o : Orchestrator) : SameReport o o.freeze := by
  rw [freeze_eq]
  exact .of_eq rfl rfl rfl

omit u in
theorem sameReport_taskStep {i : ℕ} {t : AgentTask} {e : TaskEvent}
    (h : taskStep settings o i t e = some o') : SameReport o o' := by
  cases e with
  | begin noticed | finish error =>
    simp only [taskStep] at h
    split at h
    · exact Option.some.inj h ▸ .of_eq rfl rfl rfl
    · cases h
  | act invoke =>
    simp only [taskStep] at h
    split at h
    · split at h
      · rw [← Option.some.inj h]
        split <;> exact .of_eq rfl rfl rfl
      · cases h
    · cases h
  | send =>
    simp only [taskStep] at h
    split at h
    · split at h
      · exact Option.some.inj h ▸ .of_eq rfl rfl rfl
      · cases h
    · cases h
  | receive =>
    simp only [taskStep] at h
    split at h
    · split at h
      · cases h
      · exact Option.some.inj h ▸ .of_eq rfl rfl rfl
    · cases h

/-- The steps of the run, except discovery and scoring. -/
theorem sameReport_mainStep {e : MainEvent} (hfound : ∀ found, e ≠ .discovered found)
    (he : e ≠ .scored) (h : mainStep registry record settings o m e = some o') : SameReport o o' := by
  cases e with
  | discovered found => exact absurd rfl (hfound found)
  | scored => exact absurd rfl he
  | enter now =>
    simp only [mainStep] at h
    split at h
    · exact Option.some.inj h ▸ sameReport_enter o m _ now
    · cases h
  | plan multi strategy order =>
    simp only [mainStep] at h
    split at h
    · rw [← Option.some.inj h, _phase_planning]
      have hfreeze := sameReport_freeze o
      exact ⟨hfreeze.endpoints, hfreeze.coverage, hfreeze.nextId.trans (Nat.le_add_right _ _)⟩
    · cases h
  | policy =>
    simp only [mainStep] at h
    split at h
    · rw [← Option.some.inj h]
      have hjudged : SameReport o (judgeAll registry record settings o (underReview settings o m)) :=
        .of_eq rfl rfl rfl
      refine (hjudged.trans (sameReport_freeze _)).trans ?_
      rw [_phase_policy]
      dsimp only
      split_ifs <;> exact .of_eq rfl rfl rfl
    · cases h
  | poll expired =>
    simp only [mainStep] at h
    split at h
    · rw [← Option.some.inj h, _await_step_approvals]
      split <;> exact .of_eq rfl rfl rfl
    · cases h
  | coordinate elects_stop =>
    simp only [mainStep] at h
    split at h
    · rw [← Option.some.inj h, coordinate]
      split
      · exact sameReport_endPhase _ _ _
      · exact .of_eq rfl rfl rfl
    · cases h
  | dispatch =>
    simp only [mainStep] at h
    split at h
    · obtain ⟨tasks, -, rfl⟩ := Option.map_eq_some_iff.1 h
      exact (sameReport_freeze o).trans (.of_eq rfl rfl rfl)
    · cases h
  | deliver i noticed =>
    simp only [mainStep] at h
    split at h
    · obtain ⟨⟨t, error⟩, -, rfl⟩ := Option.map_eq_some_iff.1 h
      dsimp only
      split
      · refine SameReport.trans ?_ (sameReport_endPhase _ _ _)
        cases m.client <;> exact .of_eq rfl rfl rfl
      · exact .of_eq rfl rfl rfl
    · obtain ⟨⟨t, error⟩, -, rfl⟩ := Option.map_eq_some_iff.1 h
      dsimp only
      split <;> exact .of_eq rfl rfl rfl
    · cases h
  | drained =>
    simp only [mainStep] at h
    split at h
    · split at h
      · exact Option.some.inj h ▸ .of_eq rfl rfl rfl
      · cases h
    · split at h
      · exact Option.some.inj h ▸ .of_eq rfl rfl rfl
      · cases h
    · cases h
  | retry noticed =>
    simp only [mainStep] at h
    split at h
    · rw [retry.eq_def] at h
      split at h
      · obtain ⟨t, -, rfl⟩ := Option.map_eq_some_iff.1 h
        exact .of_eq rfl rfl rfl
      · split at h
        · exact Option.some.inj h ▸ .of_eq rfl rfl rfl
        · exact Option.some.inj h ▸ .of_eq rfl rfl rfl
    · cases h
  | retried =>
    simp only [mainStep] at h
    split at h
    · rw [retried] at h
      split at h
      · split at h
        · exact Option.some.inj h ▸ .of_eq rfl rfl rfl
        · cases h
      · cases h
    · cases h
  | replan answer =>
    simp only [mainStep] at h
    split at h
    · rw [_maybe_replan] at h
      split at h
      · cases h
      split at h
      · exact Option.some.inj h ▸ sameReport_endPhase _ _ _
      · obtain ⟨tasks, -, rfl⟩ := Option.map_eq_some_iff.1 h
        exact ⟨rfl, rfl, Nat.le_add_right _ _⟩
    · cases h
  | validated =>
    simp only [mainStep] at h
    split at h
    · exact Option.some.inj h ▸ sameReport_endPhase _ _ _
    · cases h
  | send | reported | cancelled =>
    simp only [mainStep] at h
    split at h
    · exact Option.some.inj h ▸ .of_eq rfl rfl rfl
    · cases h
  | raise error =>
    simp only [mainStep] at h
    split at h
    · cases h
    · rw [← Option.some.inj h, raise]
      split
      · exact (sameReport_closeMain o m).trans (.of_eq rfl rfl rfl)
      · exact .of_eq rfl rfl rfl
  | leave =>
    simp only [mainStep] at h
    split at h
    · exact Option.some.inj h ▸ (sameReport_closeMain o m).trans (.of_eq rfl rfl rfl)
    · cases h

/-- The steps of an execution, except scoring. -/
theorem sameReport_executionStep {j : ℕ} {x : Execution} {e : ExecutionEvent} (he : e ≠ .scored)
    (h : executionStep registry record settings o j x e = some o') : SameReport o o' := by
  cases e with
  | scored => exact absurd rfl he
  | begin now =>
    simp only [executionStep] at h
    split at h
    · rw [← Option.some.inj h, execute_approved_steps]
      split_ifs <;> exact .of_eq rfl rfl rfl
    · cases h
  | dispatch =>
    simp only [executionStep] at h
    split at h
    · obtain ⟨tasks, -, rfl⟩ := Option.map_eq_some_iff.1 h
      exact (sameReport_freeze o).trans (.of_eq rfl rfl rfl)
    · cases h
  | deliver i noticed =>
    simp only [executionStep] at h
    split at h
    · obtain ⟨⟨t, error⟩, -, rfl⟩ := Option.map_eq_some_iff.1 h
      dsimp only
      split <;> exact .of_eq rfl rfl rfl
    · cases h
  | drained =>
    simp only [executionStep] at h
    split at h
    · split at h
      · exact Option.some.inj h ▸ .of_eq rfl rfl rfl
      · cases h
    · cases h
  | send | validated =>
    simp only [executionStep] at h
    split at h
    · exact Option.some.inj h ▸ .of_eq rfl rfl rfl
    · cases h
  | raise =>
    simp only [executionStep] at h
    split at h
    · cases h
    · exact Option.some.inj h ▸ .of_eq rfl rfl rfl

/-- **What a step does to the inventory and the report.** -/
inductive ReportMove (registry : _Registry) (record : AuthorizationRecord) (o : Orchestrator) :
    EngineEvent → Orchestrator → Prop
  | same {e : EngineEvent} {o' : Orchestrator} (scorer : e.scorer = none) (same : SameReport o o') :
    ReportMove registry record o e o'
  /-- Discovery and ingestion store endpoints. -/
  | added {e : EngineEvent} {o' : Orchestrator} (found : List Endpoint) (scorer : e.scorer = none)
    (same : SameReport (o.addEndpoints found).1 o') : ReportMove registry record o e o'
  | scored {e : EngineEvent} {o' : Orchestrator} (scorer : e.scorer.isSome)
    (steps : o'.steps = o.steps) (same : SameReport (_phase_score registry record o) o') :
    ReportMove registry record o e o'
  /-- The startup sweep clears both. -/
  | swept {e : EngineEvent} {o' : Orchestrator} (scorer : e.scorer = none) (endpoints : o'.endpoints = [])
    (coverage : o'.coverage = []) : ReportMove registry record o e o'

theorem reportMove_of_step {e : EngineEvent} (h : step registry record settings o e = some o') :
    ReportMove registry record o e o' := by
  cases e with
  | main e =>
    obtain ⟨m, -, h⟩ := Option.bind_eq_some_iff.1 h
    by_cases hscored : e = .scored
    · subst hscored
      simp only [mainStep] at h
      split at h
      · rw [← Option.some.inj h]
        obtain ⟨coverage, hscore⟩ := _phase_score_eq registry record o
        exact .scored rfl (by rw [hscore]; rfl) (.of_eq rfl rfl rfl)
      · cases h
    have hscorer : (EngineEvent.main e).scorer = none := by
      cases e <;> first | rfl | exact absurd rfl hscored
    by_cases hfound : ∃ found, e = .discovered found
    · obtain ⟨found, rfl⟩ := hfound
      simp only [mainStep] at h
      split at h
      · rw [← Option.some.inj h]
        exact .added found rfl (sameReport_endPhase _ _ _)
      · cases h
    · exact .same hscorer (sameReport_mainStep (fun found hf ↦ hfound ⟨found, hf⟩) hscored h)
  | execution j e =>
    obtain ⟨x, -, h⟩ := Option.bind_eq_some_iff.1 h
    by_cases hscored : e = .scored
    · subst hscored
      simp only [executionStep] at h
      split at h
      · rw [← Option.some.inj h]
        obtain ⟨coverage, hscore⟩ := _phase_score_eq registry record o
        exact .scored rfl (by rw [hscore]; rfl) (.of_eq rfl rfl rfl)
      · cases h
    have hscorer : (EngineEvent.execution j e).scorer = none := by
      cases e <;> first | rfl | exact absurd rfl hscored
    exact .same hscorer (sameReport_executionStep hscored h)
  | task i e =>
    obtain ⟨t, -, h⟩ := Option.bind_eq_some_iff.1 h
    exact .same rfl (sameReport_taskStep h)
  | start reset =>
    rw [← Option.some.inj h, start]
    refine .same rfl ?_
    split
    · refine SameReport.trans ?_ (sameReport_start_assessment _)
      cases reset <;> exact .of_eq rfl rfl rfl
    · exact .of_eq rfl rfl rfl
  | cancel =>
    rw [← Option.some.inj h, cancel]
    refine .same rfl ?_
    dsimp only
    split_ifs <;> exact .of_eq rfl rfl rfl
  | cancel_all =>
    rw [← Option.some.inj h, cancel_all]
    refine .same rfl ?_
    split <;> exact .of_eq rfl rfl rfl
  | approve step_id user_id note =>
    rw [← Option.some.inj h, approve_step]
    refine .same rfl ?_
    dsimp only
    split
    · split
      · refine SameReport.trans ?_ (sameReport_start_approved_steps _ _)
        exact .of_eq rfl rfl rfl
      · refine SameReport.trans ?_ (sameReport_resume_if_parked _)
        exact .of_eq rfl rfl rfl
    · exact .of_eq rfl rfl rfl
  | deny step_id user_id note =>
    rw [← Option.some.inj h, deny_step]
    refine .same rfl ?_
    dsimp only
    split
    · refine SameReport.trans ?_ (sameReport_resume_if_parked _)
      exact .of_eq rfl rfl rfl
    · exact .of_eq rfl rfl rfl
  | triage => exact .same rfl (Option.some.inj h ▸ .of_eq rfl rfl rfl)
  | ingest found => exact .added found rfl (Option.some.inj h ▸ .of_eq rfl rfl rfl)
  | register skills => exact .same rfl (Option.some.inj h ▸ .of_eq rfl rfl rfl)
  | restart =>
    have hcrash : SameReport o o.crash := .of_eq rfl rfl rfl
    rw [← Option.some.inj h, resume_incomplete_assessments]
    split
    · exact .same rfl hcrash
    split
    · exact .same rfl (hcrash.trans (sameReport_start_assessment _))
    · have hlaunch := @sameReport_start_assessment settings { o.crash with
        steps := []
        endpoints := []
        coverage := []
        assessment := { o.crash.assessment with state := .CREATED, cancel_requested := false } }
      exact .swept rfl hlaunch.endpoints hlaunch.coverage

/-! ### The inventory -/

/-- Endpoints have ids of their own, below the counter. -/
structure Catalogued (o : Orchestrator) : Prop where
  below : ∀ e ∈ o.endpoints, e.id < o.nextId
  nodup : (o.endpoints.map (·.id)).Nodup

omit u in
theorem Catalogued.of_same (hC : o.Catalogued) (h : SameReport o o') : o'.Catalogued where
  below e he := (hC.below e (h.endpoints ▸ he)).trans_le h.nextId
  nodup := h.endpoints ▸ hC.nodup

omit u in
theorem Catalogued.addEndpoints (hC : o.Catalogued) (found : List Endpoint) :
    (o.addEndpoints found).1.Catalogued := by
  rw [Orchestrator.addEndpoints]
  refine List.foldlRecOn found _ (motive := fun p : Orchestrator × List Endpoint ↦ p.1.Catalogued) hC
    fun p hp e _ ↦ ?_
  dsimp only
  split
  · exact hp
  -- the new row has the id of the counter, which no row had
  have hfresh : p.1.nextId ∉ p.1.endpoints.map (·.id) := by
    intro hmem
    obtain ⟨e₀, he₀, hid⟩ := List.mem_map.1 hmem
    exact (hp.below e₀ he₀).ne hid
  refine ⟨fun e₀ he₀ ↦ ?_, ?_⟩
  · rcases List.mem_append.1 he₀ with he₀ | he₀
    · exact (hp.below e₀ he₀).trans (Nat.lt_succ_self _)
    · rw [List.mem_singleton.1 he₀]
      exact Nat.lt_succ_self _
  · rw [List.map_append]
    refine List.nodup_append.2 ⟨hp.nodup, List.nodup_singleton _, fun a ha b hb hab ↦ ?_⟩
    have hid : b = p.1.nextId := List.mem_singleton.1 hb
    exact hfresh (hid ▸ hab ▸ ha)

end Orchestrator

namespace CoverageLedger

open Orchestrator

variable {registry : _Registry} {record : AuthorizationRecord} {settings : Settings}
variable {l l' : CoverageLedger} [u : UnicodeTables]

/-- **The invariant**: a report is what scoring writes from what was noted. -/
structure Sound (registry : _Registry) (record : AuthorizationRecord) (l : CoverageLedger) : Prop where
  catalogued : l.engine.Catalogued
  written : l.engine.coverage ≠ [] → Written registry record l.basis l.engine
  nodup : l.basis.endpoints.Nodup

theorem step_eq_some {e : EngineEvent} (h : step registry record settings l e = some l') :
    Orchestrator.step registry record settings l.engine e = some l'.engine ∧
      l'.basis = if e.scorer.isSome ∧ l.engine.coverage = [] then l.engine.basis else l.basis := by
  obtain ⟨engine, hengine, rfl⟩ := Option.map_eq_some_iff.1 h
  exact ⟨hengine, rfl⟩

omit u in
theorem Written.of_coverage {b : CoverageBasis} {o o' : Orchestrator} (h : o'.coverage = o.coverage)
    (hW : Written registry record b o) : Written registry record b o' := by
  rw [Written, h]
  exact hW

/-- The ids of the endpoints stay distinct, and below the counter. -/
theorem catalogued_of_step {o o' : Orchestrator} {e : EngineEvent} (hC : o.Catalogued)
    (h : Orchestrator.step registry record settings o e = some o') : o'.Catalogued := by
  cases reportMove_of_step h with
  | same scorer same => exact hC.of_same same
  | added found scorer same => exact (hC.addEndpoints found).of_same same
  | scored scorer steps same =>
    obtain ⟨coverage, hscore⟩ := _phase_score_eq registry record o
    have hscored : (_phase_score registry record o).Catalogued := by
      rw [hscore]
      exact ⟨hC.below, hC.nodup⟩
    exact hscored.of_same same
  | swept scorer endpoints coverage =>
    refine ⟨fun e he ↦ ?_, ?_⟩
    · rw [endpoints] at he
      cases he
    · rw [endpoints]
      exact List.nodup_nil

/-- **The step lemma.** -/
theorem Sound.step {e : EngineEvent} (hS : Sound registry record l)
    (h : step registry record settings l e = some l') : Sound registry record l' := by
  obtain ⟨hengine, hbasis⟩ := step_eq_some h
  have hcatalogued := catalogued_of_step hS.catalogued hengine
  cases reportMove_of_step hengine with
  | same scorer same =>
    have hkept : l'.basis = l.basis := by
      rw [hbasis, scorer]
      rfl
    refine ⟨hcatalogued, fun hcoverage ↦ ?_, hkept ▸ hS.nodup⟩
    rw [hkept]
    rw [same.coverage] at hcoverage
    exact Written.of_coverage same.coverage (hS.written hcoverage)
  | added found scorer same =>
    have hkept : l'.basis = l.basis := by
      rw [hbasis, scorer]
      rfl
    have hadded : (l.engine.addEndpoints found).1.coverage = l.engine.coverage := by
      obtain ⟨endpoints, nextId, -, heq⟩ := addEndpoints_eq l.engine found
      rw [heq]
    have hcov := same.coverage.trans hadded
    refine ⟨hcatalogued, fun hcoverage ↦ ?_, hkept ▸ hS.nodup⟩
    rw [hkept]
    rw [hcov] at hcoverage
    exact Written.of_coverage hcov (hS.written hcoverage)
  | scored scorer steps same =>
    by_cases hnone : l.engine.coverage = []
    · rw [if_pos ⟨scorer, hnone⟩] at hbasis
      refine ⟨hcatalogued, fun _ ↦ ?_, hbasis ▸ hS.catalogued.nodup⟩
      rw [hbasis]
      exact Written.of_coverage same.coverage (written_phase_score hnone)
    · rw [if_neg fun hc ↦ hnone hc.2] at hbasis
      refine ⟨hcatalogued, fun _ ↦ ?_, hbasis ▸ hS.nodup⟩
      rw [hbasis]
      rw [phase_score_of_coverage hnone] at same
      exact Written.of_coverage same.coverage (hS.written hnone)
  | swept scorer endpoints coverage =>
    have hkept : l'.basis = l.basis := by
      rw [hbasis, scorer]
      rfl
    exact ⟨hcatalogued, fun hcoverage ↦ absurd coverage hcoverage, hkept ▸ hS.nodup⟩

/-- **The run lemma.** -/
theorem sound_of_run {org_id : ℕ} {requested : List String} {incremental : Bool}
    {prev : Option (List Text)} {es : List EngineEvent}
    (h : Machine.run (step registry record settings) { engine := created org_id requested incremental prev }
      es = some l) : Sound registry record l :=
  Machine.inv_of_run (fun hS hs ↦ Sound.step hS hs) h
    ⟨⟨fun e he ↦ (by cases he), List.nodup_nil⟩, fun hne ↦ absurd rfl hne, List.nodup_nil⟩

/-- **When the report is in step with execution.** After a scoring of any run it is exactly when there was
no report before, or the one there was is that of the endpoints and the done pairs of now. -/
theorem inStep_iff {org_id : ℕ} {requested : List String} {incremental : Bool}
    {prev : Option (List Text)} {es : List EngineEvent} {e : EngineEvent}
    (h : Machine.run (step registry record settings) { engine := created org_id requested incremental prev }
      es = some l) (scores : e.scorer.isSome) (hstep : step registry record settings l e = some l') :
    InStep registry record l'.engine ↔ Upheld registry record l := by
  have hS := sound_of_run h
  have hS' := hS.step hstep
  obtain ⟨hengine, hbasis⟩ := step_eq_some hstep
  cases reportMove_of_step hengine with
  | same scorer _ | added _ scorer _ | swept scorer _ _ =>
    rw [scorer] at scores
    cases scores
  | scored _ steps same =>
    obtain ⟨coverage, hscore⟩ := _phase_score_eq registry record l.engine
    have hendpoints : l'.engine.endpoints = l.engine.endpoints := by
      rw [same.endpoints, hscore]
    have hdone : l'.engine.pairs [.done] = l.engine.pairs [.done] := by
      rw [pairs, pairs, steps]
    by_cases hnone : l.engine.coverage = []
    · -- the report is written now
      rw [if_pos ⟨scores, hnone⟩] at hbasis
      refine iff_of_true ?_ (Or.inl hnone)
      have hW : Written registry record l.engine.basis l'.engine :=
        Written.of_coverage same.coverage (written_phase_score hnone)
      refine inStep_of_written hW hS.catalogued.nodup (fun id ↦ ?_) fun id _ cclass _ ↦ ?_
      · rw [hendpoints]
        exact Iff.rfl
      · rw [hdone]
        exact Iff.rfl
    · -- the report is kept, and with it what it was written from
      rw [if_neg fun hc ↦ hnone hc.2] at hbasis
      rw [phase_score_of_coverage hnone] at same
      have hW : Written registry record l.basis l'.engine :=
        Written.of_coverage same.coverage (hS.written hnone)
      have hcoverage : l'.engine.coverage ≠ [] := same.coverage ▸ hnone
      have hupheld : Upheld registry record l ↔
          (∀ id, id ∈ l'.engine.endpoints.map (·.id) ↔ id ∈ l.basis.endpoints) ∧
            ∀ id ∈ l.basis.endpoints, ∀ cclass ∈ authorizedClasses registry record,
              (id, cclass) ∈ l'.engine.pairs [.done] ↔ (id, cclass) ∈ l.basis.done := by
        rw [Upheld, hendpoints, hdone]
        exact or_iff_right hnone
      rw [hupheld]
      exact ⟨basis_of_inStep hW hcoverage, fun hb ↦ inStep_of_written hW hS.nodup hb.1 hb.2⟩

end CoverageLedger

/-! ### Sample runs -/

section

attribute [local instance] asciiTables

/-- The wait for the approval of the only step ends, and the run goes on to its scoring. -/
def unapprovedRun : List EngineEvent :=
  throughPolicy [sampleEndpoint] ++ [.main (.poll true), .main (.enter 0), .main (.coordinate false),
    .main (.enter 0), .main .validated, .main (.enter 0)]

/-- After the run the step is approved and executed, up to the second scoring. -/
def approvedLater : List EngineEvent :=
  [.main .scored, .main (.enter 0), .main .reported, .main .leave, .approve 1 7 "ok",
    .execution 0 (.begin 0), .execution 0 .dispatch] ++ runAgent 0 ++
  [.execution 0 (.deliver 0 false), .execution 0 .drained, .execution 0 .validated]

/-- The ledger of the sample runs. -/
def sampleLedger : CoverageLedger := { engine := .created 1 [] false none }

/-- The step is done, and its pair stays untested. -/
theorem approvedLater_not_inStep : ∃ l l', Machine.run
    (CoverageLedger.step gatedRegistry (scanRecord ["authz"]) {}) sampleLedger
      (unapprovedRun ++ approvedLater) = some l ∧
    CoverageLedger.step gatedRegistry (scanRecord ["authz"]) {} l (.execution 0 .scored) = some l' ∧
    l'.engine.steps.map (·.status) = [.done] ∧
      ¬Orchestrator.InStep gatedRegistry (scanRecord ["authz"]) l'.engine := by
  obtain ⟨l', hl', hdone, huntested⟩ : ∃ l', Machine.run
      (CoverageLedger.step gatedRegistry (scanRecord ["authz"]) {}) sampleLedger
        (unapprovedRun ++ approvedLater ++ [.execution 0 .scored]) = some l' ∧
      l'.engine.steps.map (fun s ↦ (s.endpoint_id, s.check_class, s.status)) = [(0, "authz", .done)] ∧
        l'.engine.coverage.map (fun c ↦ (c.endpoint_id, c.check_class, c.tested)) =
          [(0, "authz", false)] := by
    decide +kernel
  obtain ⟨l, hl, hstep⟩ := Machine.run_snoc_eq_some _ hl'
  refine ⟨l, l', hl, hstep, ?_, fun h ↦ ?_⟩
  · have hstatus := congrArg (List.map fun p : ℕ × String × StepStatus ↦ p.2.2) hdone
    rwa [List.map_map] at hstatus
  · have hrow : (0, "authz", false) ∈
        l'.engine.coverage.map fun c ↦ (c.endpoint_id, c.check_class, c.tested) := by
      rw [huntested]
      exact List.mem_singleton_self _
    have hstepDone : (0, "authz", StepStatus.done) ∈
        l'.engine.steps.map fun s ↦ (s.endpoint_id, s.check_class, s.status) := by
      rw [hdone]
      exact List.mem_singleton_self _
    obtain ⟨c, hc, hceq⟩ := List.mem_map.1 hrow
    obtain ⟨s, hs, hseq⟩ := List.mem_map.1 hstepDone
    simp only [Prod.mk.injEq] at hceq hseq
    have htested := (h.tested c hc).2 ⟨s, hs, hseq.1.trans hceq.1.symm,
      hseq.2.1.trans hceq.2.1.symm, hseq.2.2⟩
    rw [hceq.2.2] at htested
    cases htested

/-- The first scoring of the run is right. -/
theorem inStep_iff_first : ∃ l l', Machine.run
    (CoverageLedger.step gatedRegistry (scanRecord ["authz"]) {}) sampleLedger unapprovedRun = some l ∧
    CoverageLedger.step gatedRegistry (scanRecord ["authz"]) {} l (.main .scored) = some l' ∧
    l'.engine.coverage.length = 1 ∧
      Orchestrator.InStep gatedRegistry (scanRecord ["authz"]) l'.engine := by
  obtain ⟨l, hl, hnone, l', hstep, hrows⟩ : ∃ l, Machine.run
      (CoverageLedger.step gatedRegistry (scanRecord ["authz"]) {}) sampleLedger unapprovedRun = some l ∧
      l.engine.coverage = [] ∧
      ∃ l' ∈ CoverageLedger.step gatedRegistry (scanRecord ["authz"]) {} l (.main .scored),
        l'.engine.coverage.length = 1 := by
    decide +kernel
  exact ⟨l, l', hl, hstep, hrows, (CoverageLedger.inStep_iff hl rfl hstep).2 (Or.inl hnone)⟩

end

end Sentrik
