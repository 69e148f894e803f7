import Sentrik.Orchestration.Dossier

/-!
# The stored risk and the findings

Scoring stores two copies: the score of each finding, and the risk of the assessment. What they are read
off can be written afterwards, by triage, by ingested traffic, and by a task that ends before its own
scoring. `RiskCurrent` says that the copies are what scoring would store now.

A task that has its scoring still before it makes up for everything written before. `Settles` is the
condition on a step: once the assessment is scored, nothing scoring reads is written while there is no
such task, and the last such task does not give up when something is unscored. `Scored` is the invariant:
what is unscored has a task that is going to score it.
-/

namespace Sentrik

/-- Whether the task of the run has its scoring still before it. -/
def MainPc.willScore : MainPc → Bool
  | .entering n | .inside n => n != .report
  | .cancelling | .leaving => false
  | _ => true

namespace Orchestrator

/-- Some task has its scoring still before it. -/
def WillScore (o : Orchestrator) : Prop :=
  (∃ m ∈ o.main, m.pc.willScore = true) ∨ ∃ x ∈ o.executions, x.pc ≠ .finished

instance (o : Orchestrator) : Decidable o.WillScore := inferInstanceAs (Decidable (_ ∨ _))

/-- No task of the run is there, and every execution is over. -/
structure Idle (o : Orchestrator) : Prop where
  main : o.main = none
  executions : ∀ x ∈ o.executions, x.pc = .finished

instance (o : Orchestrator) : Decidable o.Idle :=
  decidable_of_iff (o.main = none ∧ ∀ x ∈ o.executions, x.pc = .finished)
    ⟨fun h ↦ ⟨h.1, h.2⟩, fun h ↦ ⟨h.main, h.executions⟩⟩

theorem Idle.not_willScore {o : Orchestrator} (h : o.Idle) : ¬o.WillScore := by
  rintro (⟨m, hm, -⟩ | ⟨x, hx, hpc⟩)
  · rw [h.main] at hm
    cases hm
  · exact hpc (h.executions x hx)

section

variable (registry : _Registry) (record : AuthorizationRecord) (settings : Settings)
variable [u : UnicodeTables]

/-- Whether the task of the run leaves the way to its scoring: it sees the cancel flag, the record is not
active, it parks, or it raises. -/
def givesUp (o : Orchestrator) (m : Main) : MainEvent → Bool
  | .enter now =>
    match m.pc with
    | .entering n =>
      (n.checksCancel settings && o.assessment.cancel_requested) ||
        (!((_make_guard record settings).check_record_active now).allowed &&
          n == if settings.use_langgraph then .authorize else .discover)
    | _ => false
  | .policy =>
    settings.use_langgraph && !o.interrupted &&
      !(judgeAll registry record settings o (underReview settings o m)).held_step_ids.isEmpty
  | .raise _ => true
  | _ => false

omit u in
/-- Whether an execution ends before its scoring: nothing to execute, the record is not active, or it
raises. -/
def executionGivesUp (o : Orchestrator) (x : Execution) : ExecutionEvent → Bool
  | .begin now =>
    ((o._reload_steps x.step_ids).filter (·.status == .approved)).isEmpty ||
      !((_make_guard record settings).check_record_active now).allowed
  | .raise => true
  | _ => false

/-- Whether the run the startup sweep starts has its scoring before it. -/
def resumesScoring (o : Orchestrator) : Bool :=
  o.assessment.state ∉ TERMINAL_STATES ∧ o.assessment.started = true ∧
    (settings.use_langgraph = true → o.thread ≠ some .report)

end

end Orchestrator

namespace Dossier

section

variable (registry : _Registry) (record : AuthorizationRecord) (settings : Settings)

/-- **The copies are what scoring would store now.** -/
structure RiskCurrent (d : Dossier) : Prop where
  scores : ∀ f ∈ d.findings, f.risk_score = scoreOf record d.engine.endpoints f
  summary : d.risk = some (riskOf d.engine d.findings)

variable [u : UnicodeTables]

/-- What a step of the engine has to meet once the assessment is scored. -/
def EngineSettles (d : Dossier) : EngineEvent → Prop
  | .main e =>
    d.unscored = false ∨ (∃ x ∈ d.engine.executions, x.pc ≠ .finished) ∨
      ∀ m ∈ d.engine.main, d.engine.givesUp registry record settings m e = false
  | .execution j e =>
    d.unscored = false ∨ (∃ m ∈ d.engine.main, m.pc.willScore = true) ∨
      (∃ x ∈ d.engine.executions.eraseIdx j, x.pc ≠ .finished) ∨
      ∀ x ∈ d.engine.executions[j]?, d.engine.executionGivesUp record settings x e = false
  | .ingest found =>
    d.engine.WillScore ∨
      ∀ e ∈ found, d.engine.endpoints.any (·.fingerprint == e.fingerprint) = true
  | .restart => d.unscored = false ∨ d.engine.resumesScoring settings = true
  | _ => True

/-- **The condition on a step.** Once the assessment is scored, triage changes a status, and traffic
brings a new endpoint, only while some task has its scoring before it; and when something was written
since the last scoring, the last such task does not give up. -/
def Settles (d : Dossier) (e : DossierEvent) : Prop :=
  d.risk.isSome = true →
    match e with
    | .engine e _ => EngineSettles registry record settings d e
    | .triage finding_id status =>
      d.engine.WillScore ∨ ∀ f ∈ d.findings, f.id = finding_id → f.status = status
    | _ => True

instance (d : Dossier) (e : EngineEvent) : Decidable (EngineSettles registry record settings d e) := by
  unfold EngineSettles
  split <;> infer_instance

instance (d : Dossier) (e : DossierEvent) : Decidable (Settles registry record settings d e) := by
  unfold Settles
  split <;> infer_instance

end

end Dossier

namespace Orchestrator

variable {registry : _Registry} {record : AuthorizationRecord} {settings : Settings}
variable {o o' : Orchestrator} {m : Main}

/-! ### What scoring reads of the engine -/

/-- What scoring reads of the engine is the same. -/
structure Still (o o' : Orchestrator) : Prop where
  endpoints : o'.endpoints = o.endpoints
  done : o'.pairs [.done] = o.pairs [.done]

theorem Still.of_eq (endpoints : o'.endpoints = o.endpoints) (steps : o'.steps = o.steps) :
    Still o o' :=
  ⟨endpoints, by rw [pairs, pairs, steps]⟩

theorem Still.refl (o : Orchestrator) : Still o o := ⟨rfl, rfl⟩

theorem Still.trans {o o₁ o₂ : Orchestrator} (h : Still o o₁) (h' : Still o₁ o₂) : Still o o₂ where
  endpoints := h'.endpoints.trans h.endpoints
  done := h'.done.trans h.done

/-- Rewriting steps that are not done to steps that are not done leaves the done pairs alone. -/
theorem done_of_map {f : PlanStep → PlanStep}
    (h : ∀ s ∈ o.steps, f s = s ∨ (s.status ≠ .done ∧ (f s).status ≠ .done))
    (hsteps : o'.steps = o.steps.map f) : o'.pairs [.done] = o.pairs [.done] := by
  rw [pairs, pairs, hsteps]
  generalize o.steps = steps at h
  induction steps with
  | nil => rfl
  | cons s steps ih =>
    have htail := ih fun r hr ↦ h r (List.mem_cons_of_mem s hr)
    have hcontains : ∀ status : StepStatus, status ≠ .done → [StepStatus.done].contains status = false := by
      intro status hne
      cases status <;> first | rfl | exact absurd rfl hne
    rcases h s List.mem_cons_self with heq | ⟨hs, hf⟩
    · rw [List.map_cons, heq, List.filter_cons, List.filter_cons]
      split
      · rw [List.map_cons, List.map_cons, htail]
      · exact htail
    · rw [List.map_cons, List.filter_cons, List.filter_cons, hcontains _ hs, hcontains _ hf]
      exact htail

theorem still_closeMain (o : Orchestrator) (m : Main) : Still o (o.closeMain m) := by
  rw [closeMain]
  cases m.client <;> exact ⟨rfl, rfl⟩

theorem still_start_assessment (o : Orchestrator) : Still o (start_assessment settings o) := by
  rw [start_assessment]
  split <;> exact ⟨rfl, rfl⟩

theorem still_start_approved_steps (o : Orchestrator) (step_ids : List ℕ) :
    Still o (o.start_approved_steps step_ids) := by
  rw [start_approved_steps]
  split <;> exact ⟨rfl, rfl⟩

theorem still_resume_if_parked (o : Orchestrator) : Still o (_resume_if_parked settings o) := by
  rw [_resume_if_parked]
  split
  · exact .refl o
  split
  · exact still_start_assessment o
  · exact .refl o

/-! ### Who is going to score -/

theorem WillScore.of_main {m' : Main} (main' : o'.main = some m') (h : m'.pc.willScore = true) :
    o'.WillScore :=
  Or.inl ⟨m', main', h⟩

theorem willScore_of_isScoring {who : Option ℕ} (h : o.isScoring who = true) : o.WillScore := by
  cases who with
  | none =>
    obtain ⟨m, main, hpc⟩ := (Option.any_eq_true ..).1 h
    exact .of_main main (of_decide_eq_true hpc ▸ rfl)
  | some j =>
    obtain ⟨x, execution, hpc⟩ := (Option.any_eq_true ..).1 h
    exact Or.inr ⟨x, List.mem_of_getElem? execution, of_decide_eq_true hpc ▸ (by rintro ⟨⟩)⟩

theorem willScore_of_isValidating {who : Option ℕ} (h : o.isValidating who = true) : o.WillScore := by
  cases who with
  | none =>
    obtain ⟨m, main, hpc⟩ := (Option.any_eq_true ..).1 h
    exact .of_main main (of_decide_eq_true hpc ▸ rfl)
  | some j =>
    obtain ⟨x, execution, hpc⟩ := (Option.any_eq_true ..).1 h
    exact Or.inr ⟨x, List.mem_of_getElem? execution, of_decide_eq_true hpc ▸ (by rintro ⟨⟩)⟩

/-- Starting tasks takes none away. -/
theorem WillScore.start_assessment (h : o.WillScore) : (start_assessment settings o).WillScore := by
  rw [Orchestrator.start_assessment]
  split
  · exact h
  next hmain =>
    rcases h with ⟨m, hm, -⟩ | hexec
    · exact absurd (Option.isSome_iff_exists.2 ⟨m, hm⟩) hmain
    · exact Or.inr hexec

theorem WillScore.start_approved_steps (h : o.WillScore) (step_ids : List ℕ) :
    (o.start_approved_steps step_ids).WillScore := by
  rw [Orchestrator.start_approved_steps]
  split
  · exact h
  · rcases h with hmain | ⟨x, hx, hpc⟩
    · exact Or.inl hmain
    · exact Or.inr ⟨x, List.mem_append_left _ hx, hpc⟩

theorem WillScore.resume_if_parked (h : o.WillScore) : (_resume_if_parked settings o).WillScore := by
  rw [_resume_if_parked]
  split
  · exact h
  split
  · exact h.start_assessment
  · exact h

/-- An execution that is not over leaves a task that is going to score. -/
theorem WillScore.of_execution {j : ℕ} {x x' : Execution} (execution : o.executions[j]? = some x)
    (executions' : o'.executions = o.executions.set j x') (h : x'.pc ≠ .finished) : o'.WillScore := by
  obtain ⟨hj, -⟩ := List.getElem?_eq_some_iff.1 execution
  have hmem : x' ∈ o'.executions := executions' ▸ List.mem_set hj x'
  exact Or.inr ⟨x', hmem, h⟩

/-! ### A step of the run -/

theorem endPhase_willScore (o : Orchestrator) (m : Main) {n : Node} (hn : n ≠ .report) :
    (endPhase settings o m n).WillScore := by
  have hpc : MainPc.willScore (.entering n) = true := bne_iff_ne.2 hn
  rw [endPhase]
  split
  · exact .of_main rfl hpc
  · exact .of_main rfl hpc

theorem goto_willScore (o : Orchestrator) (m : Main) {n : Node} (hn : n ≠ .report) :
    (goto settings o m n).WillScore :=
  .of_main rfl (show MainPc.willScore (.entering n) = true from bne_iff_ne.2 hn)

variable [u : UnicodeTables]

/-- A run that enters a phase before its report, and does not give up, is going to score. -/
theorem enter_willScore {n : Node} (pc : m.pc = .entering n) (hw : m.pc.willScore = true) {now : ℤ}
    (hgo : givesUp registry record settings o m (.enter now) = false) :
    (enter record settings o m n now).WillScore := by
  have hn : n ≠ .report := by
    rw [pc] at hw
    exact bne_iff_ne.1 hw
  have hinside : MainPc.willScore (.inside n) = true := bne_iff_ne.2 hn
  rw [givesUp, pc] at hgo
  obtain ⟨hcancel, hactive⟩ := Bool.or_eq_false_iff.1 hgo
  rw [Bool.and_eq_false_iff] at hactive
  have hcancel' : ¬(n.checksCancel settings = true ∧ o.assessment.cancel_requested = true) :=
    fun h ↦ Bool.false_ne_true (hcancel.symm.trans (Bool.and_eq_true_iff.2 h))
  rw [enter.eq_def]
  dsimp only
  rw [if_neg hcancel']
  cases n with
  | authorize =>
    dsimp only
    split
    next hfail =>
      -- the record is not active, and this is the node of the graph that looks
      rcases hactive with hactive | hactive
      · exact absurd (by simpa using hactive) hfail.2
      · simp [hfail.1] at hactive
    next => exact goto_willScore _ _ (by decide)
  | discover =>
    dsimp only
    split
    next hfail =>
      rcases hactive with hactive | hactive
      · exact absurd (by simpa using hactive) hfail.2
      · simp [hfail.1] at hactive
    next => exact .of_main rfl hinside
  | execute | validate =>
    dsimp only
    split <;> exact .of_main rfl hinside
  | plan | policy | score => exact .of_main rfl hinside
  | report => exact absurd rfl hn

/-- **A task of the run that does not give up is going to score** after its step. -/
theorem willScore_of_mainStep {e : MainEvent} (hw : m.pc.willScore = true) (he : e ≠ .scored)
    (hgo : givesUp registry record settings o m e = false)
    (main : o.main = some m) (h : mainStep registry record settings o m e = some o') : o'.WillScore := by
  cases e with
  | enter now =>
    simp only [mainStep] at h
    split at h
    next n pc => exact Option.some.inj h ▸ enter_willScore pc hw hgo
    next => cases h
  | discovered found =>
    simp only [mainStep] at h
    split at h
    · exact Option.some.inj h ▸ endPhase_willScore _ _ (by decide)
    · cases h
  | plan multi strategy order =>
    simp only [mainStep] at h
    split at h
    · exact Option.some.inj h ▸ goto_willScore _ _ (by decide)
    · cases h
  | policy =>
    simp only [mainStep] at h
    split at h
    · rw [← Option.some.inj h, _phase_policy]
      dsimp only
      split
      next hgraph =>
        split
        next => exact .of_main rfl rfl
        next hparks =>
          -- the graph parks, which is to give up
          have hheld : (judgeAll registry record settings o (underReview settings o m)).freeze.held_step_ids =
              (judgeAll registry record settings o (underReview settings o m)).held_step_ids := by
            rw [freeze_judgeAll]
            rfl
          have hinterrupted : (judgeAll registry record settings o
              (underReview settings o m)).freeze.interrupted = o.interrupted := by
            rw [freeze_judgeAll, freeze_eq]
          rw [hheld, hinterrupted, not_or] at hparks
          rw [givesUp, hgraph] at hgo
          simp [hparks] at hgo
      next =>
        split
        · exact goto_willScore _ _ (by decide)
        · exact .of_main rfl rfl
    · cases h
  | poll expired =>
    simp only [mainStep] at h
    split at h
    · rw [← Option.some.inj h, _await_step_approvals]
      split
      · exact goto_willScore _ _ (by decide)
      · exact .of_main rfl rfl
    · cases h
  | coordinate elects_stop =>
    simp only [mainStep] at h
    split at h
    · rw [← Option.some.inj h, coordinate]
      split
      · exact endPhase_willScore _ _ (by decide)
      · exact .of_main rfl rfl
    · cases h
  | send =>
    simp only [mainStep] at h
    split at h
    · exact Option.some.inj h ▸ .of_main main hw
    · cases h
  | dispatch =>
    simp only [mainStep] at h
    split at h
    · obtain ⟨tasks, -, rfl⟩ := Option.map_eq_some_iff.1 h
      exact .of_main rfl rfl
    · cases h
  | deliver i noticed =>
    simp only [mainStep] at h
    split at h
    next pool errored pc =>
      obtain ⟨⟨t, error⟩, -, rfl⟩ := Option.map_eq_some_iff.1 h
      dsimp only
      split
      · exact endPhase_willScore _ _ (by decide)
      · exact .of_main rfl rfl
    next iteration pool pc =>
      obtain ⟨⟨t, error⟩, -, rfl⟩ := Option.map_eq_some_iff.1 h
      dsimp only
      split
      · exact .of_main rfl rfl
      · exact .of_main main hw
    next => cases h
  | drained =>
    simp only [mainStep] at h
    split at h
    · split at h
      · exact Option.some.inj h ▸ .of_main rfl rfl
      · cases h
    · split at h
      · exact Option.some.inj h ▸ .of_main rfl rfl
      · cases h
    · cases h
  | retry noticed =>
    simp only [mainStep] at h
    split at h
    · rw [retry.eq_def] at h
      split at h
      · obtain ⟨t, -, rfl⟩ := Option.map_eq_some_iff.1 h
        exact .of_main rfl rfl
      · split at h
        · exact Option.some.inj h ▸ .of_main rfl rfl
        · exact Option.some.inj h ▸ .of_main rfl rfl
    · cases h
  | retried =>
    simp only [mainStep] at h
    split at h
    · rw [retried] at h
      split at h
      · split at h
        · exact Option.some.inj h ▸ .of_main rfl rfl
        · cases h
      · cases h
    · cases h
  | replan answer =>
    simp only [mainStep] at h
    split at h
    · rw [_maybe_replan] at h
      split at h
      · cases h
      · split at h
        · exact Option.some.inj h ▸ endPhase_willScore _ _ (by decide)
        · obtain ⟨tasks, -, rfl⟩ := Option.map_eq_some_iff.1 h
          exact .of_main rfl rfl
    · cases h
  | validated =>
    simp only [mainStep] at h
    split at h
    · exact Option.some.inj h ▸ endPhase_willScore _ _ (by decide)
    · cases h
  | scored => exact absurd rfl he
  | reported =>
    simp only [mainStep] at h
    split at h
    next pc =>
      rw [pc] at hw
      cases hw
    next => cases h
  | raise error => cases hgo
  | cancelled =>
    simp only [mainStep] at h
    split at h
    next pc =>
      rw [pc] at hw
      cases hw
    next => cases h
  | leave =>
    simp only [mainStep] at h
    split at h
    next pc =>
      rw [pc] at hw
      cases hw
    next => cases h

omit u in
theorem still_enter (record : AuthorizationRecord) (settings : Settings) (o : Orchestrator)
    (m : Main) (n : Node) (now : ℤ) :
    Still o (enter record settings o m n now) ∧
      (enter record settings o m n now).executions = o.executions := by
  rw [enter.eq_def]
  dsimp only
  split
  · exact ⟨⟨rfl, rfl⟩, rfl⟩
  cases n with
  | plan | policy | score | report => exact ⟨⟨rfl, rfl⟩, rfl⟩
  | authorize | discover | execute | validate =>
    dsimp only
    split <;> exact ⟨⟨rfl, rfl⟩, rfl⟩

/-- Policy makes nothing done. -/
theorem still_judgeAll {K : Clearance} (hI : Inv registry record settings K o) (main : o.main = some m)
    (pc : m.pc = .inside .policy) :
    Still o (judgeAll registry record settings o (underReview settings o m)).freeze := by
  rw [freeze_judgeAll, freeze_eq]
  refine ⟨rfl, done_of_map (fun s hs ↦ ?_) rfl⟩
  split
  next hid =>
    have hplanned := hI.planned_of_underReview main pc hs hid
    have hverdict := verdict_judge registry (_make_guard record settings) settings o._declaratives s
    refine Or.inr ⟨by rw [hplanned]; decide, fun hdone ↦ ?_⟩
    rw [hdone] at hverdict
    cases hverdict
  next => exact Or.inl rfl

/-- **A task of the run that gives up, or that has scored, writes nothing scoring reads.** -/
theorem still_of_mainStep {K : Clearance} {e : MainEvent} (hI : Inv registry record settings K o)
    (main : o.main = some m) (h : mainStep registry record settings o m e = some o')
    (hends : m.pc.willScore = false ∨ givesUp registry record settings o m e = true) :
    Still o o' ∧ o'.executions = o.executions ∧ o.delivered (.main e) = none := by
  cases e with
  | enter now =>
    simp only [mainStep] at h
    split at h
    next n pc =>
      rw [← Option.some.inj h]
      obtain ⟨hstill, hexec⟩ := still_enter record settings o m n now
      exact ⟨hstill, hexec, rfl⟩
    next => cases h
  | policy =>
    simp only [mainStep] at h
    split at h
    next pc =>
      rw [pc] at hends
      obtain hfalse | hgo := hends
      · cases hfalse
      rw [givesUp, Bool.and_eq_true, Bool.and_eq_true] at hgo
      have hstill := still_judgeAll hI main pc
      rw [← Option.some.inj h, _phase_policy]
      dsimp only
      rw [if_pos hgo.1.1]
      split
      · exact ⟨⟨hstill.endpoints, hstill.done⟩, by rw [freeze_judgeAll, freeze_eq]; rfl, rfl⟩
      · exact ⟨⟨hstill.endpoints, hstill.done⟩, by rw [freeze_judgeAll, freeze_eq]; rfl, rfl⟩
    next => cases h
  | raise error =>
    simp only [mainStep] at h
    split at h
    · cases h
    · rw [← Option.some.inj h, raise]
      split
      · have hstill := still_closeMain o m
        exact ⟨⟨hstill.endpoints, hstill.done⟩, closeMain_executions o m, rfl⟩
      · exact ⟨⟨rfl, rfl⟩, rfl, rfl⟩
  | send | reported | cancelled =>
    simp only [mainStep] at h
    split at h
    · exact Option.some.inj h ▸ ⟨⟨rfl, rfl⟩, rfl, rfl⟩
    · cases h
  | leave =>
    simp only [mainStep] at h
    split at h
    · rw [← Option.some.inj h]
      have hstill := still_closeMain o m
      exact ⟨⟨hstill.endpoints, hstill.done⟩, closeMain_executions o m, rfl⟩
    · cases h
  -- the other steps are taken from places before scoring, and do not give up
  | discovered found | plan multi strategy order | poll expired | coordinate elects_stop | dispatch
    | retry noticed | retried | replan answer | validated | scored =>
    simp only [mainStep] at h
    split at h
    next pc =>
      rw [pc] at hends
      obtain hfalse | hfalse := hends <;> cases hfalse
    next => cases h
  | deliver i noticed | drained =>
    simp only [mainStep] at h
    split at h
    next pc =>
      rw [pc] at hends
      obtain hfalse | hfalse := hends <;> cases hfalse
    next pc =>
      rw [pc] at hends
      obtain hfalse | hfalse := hends <;> cases hfalse
    next => cases h

/-! ### A step of an execution -/

/-- An execution that does not give up is going to score. -/
theorem willScore_of_executionStep {j : ℕ} {x : Execution} {e : ExecutionEvent} (he : e ≠ .scored)
    (hgo : executionGivesUp record settings o x e = false) (execution : o.executions[j]? = some x)
    (h : executionStep registry record settings o j x e = some o') : o'.WillScore := by
  cases e with
  | begin now =>
    simp only [executionStep] at h
    split at h
    · rw [executionGivesUp, Bool.or_eq_false_iff, List.isEmpty_eq_false_iff] at hgo
      obtain ⟨hsteps, hactive⟩ := hgo
      rw [← Option.some.inj h, execute_approved_steps]
      rw [if_neg hsteps, if_neg (by simpa using hactive)]
      have hne : ExecutionPc.loggingIn ((o._reload_steps x.step_ids).filter (·.status == .approved)) ≠
          .finished := by rintro ⟨⟩
      exact .of_execution execution rfl hne
    · cases h
  | send =>
    simp only [executionStep] at h
    split at h
    next pc =>
      rw [← Option.some.inj h]
      refine Or.inr ⟨x, List.mem_of_getElem? execution, fun hfinished ↦ ?_⟩
      rw [hfinished] at pc
      cases pc
    next => cases h
  | dispatch =>
    simp only [executionStep] at h
    split at h
    · obtain ⟨tasks, -, rfl⟩ := Option.map_eq_some_iff.1 h
      have hexec : (o.freeze.spawn tasks).executions = o.executions := by rw [freeze_eq]; rfl
      exact .of_execution execution (by rw [setExecution, hexec]) (by rintro ⟨⟩)
    · cases h
  | deliver i noticed =>
    simp only [executionStep] at h
    split at h
    next pool pc =>
      obtain ⟨⟨t, error⟩, -, rfl⟩ := Option.map_eq_some_iff.1 h
      dsimp only
      split
      · exact .of_execution execution rfl (by rintro ⟨⟩)
      · exact Or.inr ⟨x, List.mem_of_getElem? execution, by rw [pc]; rintro ⟨⟩⟩
    next => cases h
  | drained =>
    simp only [executionStep] at h
    split at h
    · split at h
      · exact Option.some.inj h ▸ .of_execution execution rfl (by rintro ⟨⟩)
      · cases h
    · cases h
  | validated =>
    simp only [executionStep] at h
    split at h
    · exact Option.some.inj h ▸ .of_execution execution rfl (by rintro ⟨⟩)
    · cases h
  | scored => exact absurd rfl he
  | raise => cases hgo

omit u in
/-- Blocking approved steps makes nothing done, and undoes nothing. -/
theorem still_blockSteps {steps : List PlanStep} (hnodup : (o.steps.map (·.id)).Nodup)
    (hsteps : ∀ s ∈ steps, s ∈ o.steps ∧ s.status = .approved) (reason : String) :
    Still o (o.blockSteps (steps.map (·.id)) reason) := by
  refine ⟨rfl, done_of_map (fun s hs ↦ ?_) rfl⟩
  split
  next hid =>
    obtain ⟨r, hr, hrid⟩ := List.mem_map.1 hid
    obtain ⟨hmem, hstatus⟩ := hsteps r hr
    rw [← List.inj_on_of_nodup_map hnodup hmem hs hrid]
    exact Or.inr ⟨by rw [hstatus]; decide, by rintro ⟨⟩⟩
  next => exact Or.inl rfl

/-- **An execution that gives up writes nothing scoring reads.** -/
theorem still_of_executionStep {K : Clearance} {j : ℕ} {x : Execution} {e : ExecutionEvent}
    (hI : Inv registry record settings K o) (hgo : executionGivesUp record settings o x e = true)
    (h : executionStep registry record settings o j x e = some o') :
    Still o o' ∧ o'.main = o.main ∧ (∃ x', o'.executions = o.executions.set j x') ∧
      o.delivered (.execution j e) = none := by
  cases e with
  | begin now =>
    simp only [executionStep] at h
    split at h
    · rw [← Option.some.inj h, execute_approved_steps]
      split
      · exact ⟨⟨rfl, rfl⟩, rfl, ⟨_, rfl⟩, rfl⟩
      next hsteps =>
        split
        · have happroved : ∀ s ∈ (o._reload_steps x.step_ids).filter (·.status == .approved),
              s ∈ o.steps ∧ s.status = .approved := by
            intro s hs
            obtain ⟨hmem, hstatus⟩ := List.mem_filter.1 hs
            exact ⟨(List.mem_filter.1 hmem).1, beq_iff_eq.1 hstatus⟩
          have hstill := still_blockSteps hI.nodup happroved
            ((_make_guard record settings).check_record_active now).reason
          exact ⟨⟨hstill.endpoints, hstill.done⟩, rfl, ⟨_, rfl⟩, rfl⟩
        next hactive =>
          -- it has steps, and the record is active
          rw [executionGivesUp, Bool.or_eq_true, List.isEmpty_iff] at hgo
          rcases hgo with hnil | hinactive
          · exact absurd hnil hsteps
          · exact absurd (by simpa using hinactive) hactive
    · cases h
  | raise =>
    simp only [executionStep] at h
    split at h
    · cases h
    · exact Option.some.inj h ▸ ⟨⟨rfl, rfl⟩, rfl, ⟨_, rfl⟩, rfl⟩
  | _ => cases hgo

/-! ### The other steps -/

omit u in
/-- What neither writes what scoring reads nor takes away a task that is going to. -/
structure Undisturbed (o o' : Orchestrator) : Prop extends Still o o' where
  willScore : o.WillScore → o'.WillScore

omit u in
theorem Undisturbed.of_eq (endpoints : o'.endpoints = o.endpoints) (steps : o'.steps = o.steps)
    (main : o'.main = o.main) (executions : o'.executions = o.executions) : Undisturbed o o' where
  toStill := .of_eq endpoints steps
  willScore h := by
    rw [WillScore, main, executions]
    exact h

omit u in
theorem Undisturbed.trans {o o₁ o₂ : Orchestrator} (h : Undisturbed o o₁) (h' : Undisturbed o₁ o₂) :
    Undisturbed o o₂ where
  toStill := h.toStill.trans h'.toStill
  willScore := h'.willScore ∘ h.willScore

omit u in
theorem undisturbed_taskStep {i : ℕ} {t : AgentTask} {e : TaskEvent}
    (h : taskStep settings o i t e = some o') : Undisturbed o o' := by
  cases e with
  | begin noticed =>
    simp only [taskStep] at h
    split at h
    · exact Option.some.inj h ▸ .of_eq rfl rfl rfl rfl
    · cases h
  | act invoke =>
    simp only [taskStep] at h
    split at h
    · split at h
      · rw [← Option.some.inj h]
        cases invoke <;> exact .of_eq rfl rfl rfl rfl
      · cases h
    · cases h
  | send =>
    simp only [taskStep] at h
    split at h
    · split at h
      · exact Option.some.inj h ▸ .of_eq rfl rfl rfl rfl
      · cases h
    · cases h
  | receive =>
    simp only [taskStep] at h
    split at h
    · split at h
      · cases h
      · exact Option.some.inj h ▸ .of_eq rfl rfl rfl rfl
    · cases h
  | finish error =>
    simp only [taskStep] at h
    split at h
    · exact Option.some.inj h ▸ .of_eq rfl rfl rfl rfl
    · cases h

/-- A decision on a held step makes nothing done, and undoes nothing. -/
theorem undisturbed_decideStep {K : Clearance} (hI : Inv registry record settings K o) {id : ℕ}
    (held : o.held id = true) (status : StepStatus) (hstatus : status ≠ .done)
    (note : PolicyDecision → PolicyDecision) : Undisturbed o (o.decideStep id status note) where
  endpoints := rfl
  done := by
    refine done_of_map (fun s hs ↦ ?_) rfl
    split
    next hid => exact Or.inr ⟨by rw [hI.status_of_held held hs hid]; decide, hstatus⟩
    next => exact Or.inl rfl
  willScore h := h

omit u in
theorem undisturbed_start_approved_steps (o : Orchestrator) (step_ids : List ℕ) :
    Undisturbed o (o.start_approved_steps step_ids) :=
  ⟨still_start_approved_steps o step_ids, (·.start_approved_steps step_ids)⟩

omit u in
theorem undisturbed_resume_if_parked (o : Orchestrator) :
    Undisturbed o (_resume_if_parked settings o) :=
  ⟨still_resume_if_parked o, (·.resume_if_parked)⟩

omit u in
theorem undisturbed_start_assessment (o : Orchestrator) : Undisturbed o (start_assessment settings o) :=
  ⟨still_start_assessment o, (·.start_assessment)⟩

omit u in
theorem undisturbed_start (o : Orchestrator) (reset : Bool) : Undisturbed o (start settings o reset) := by
  rw [start]
  split
  · refine Undisturbed.trans ?_ (undisturbed_start_assessment _)
    cases reset <;> exact .of_eq rfl rfl rfl rfl
  · exact .of_eq rfl rfl rfl rfl

omit u in
/-- Endpoints that are there already are not stored again. -/
theorem addEndpoints_of_known {found : List Endpoint}
    (h : ∀ e ∈ found, o.endpoints.any (·.fingerprint == e.fingerprint) = true) :
    o.addEndpoints found = (o, []) := by
  rw [addEndpoints]
  induction found with
  | nil => rfl
  | cons e found ih =>
    rw [List.foldl_cons]
    dsimp only
    rw [if_pos (h e List.mem_cons_self)]
    exact ih fun e' he' ↦ h e' (List.mem_cons_of_mem e he')

omit u in
/-- A restart that is not going to score restarts nothing. -/
theorem restart_spec (settings : Settings) (o : Orchestrator) :
    (resume_incomplete_assessments settings o.crash).WillScore ∨
      Still o (resume_incomplete_assessments settings o.crash) ∧ o.restarts settings = false ∧
        o.resumesScoring settings = false := by
  rw [resume_incomplete_assessments]
  split
  next hover =>
    have hnot : ¬(o.assessment.state ∉ TERMINAL_STATES ∧ o.assessment.started = true) := by
      rintro ⟨hstate, hstarted⟩
      rcases hover with hterminal | hfresh | hmain
      · exact hstate hterminal
      · exact Bool.false_ne_true (hfresh.symm.trans hstarted)
      · exact Bool.false_ne_true hmain
    exact Or.inr ⟨.of_eq rfl rfl, decide_eq_false fun h ↦ hnot ⟨h.1, h.2.1⟩,
      decide_eq_false fun h ↦ hnot ⟨h.1, h.2.1⟩⟩
  next hlive =>
    split
    next hthread =>
      -- the graph continues at its pending node
      by_cases hreport : o.thread = some .report
      · have hcrash : Still o o.crash := .of_eq rfl rfl
        exact Or.inr ⟨hcrash.trans (still_start_assessment _),
          decide_eq_false fun h ↦ h.2.2 hthread, decide_eq_false fun h ↦ h.2.2 hthread.1 hreport⟩
      · have hmain : (start_assessment settings o.crash).main =
            some { pc := .entering (o.thread.getD .authorize) } := by
          rw [start_assessment, if_neg (by rintro ⟨⟩), if_pos hthread.1]
          rfl
        refine Or.inl (.of_main hmain (bne_iff_ne.2 fun hgetD ↦ hreport ?_))
        obtain ⟨n, hn⟩ := Option.isSome_iff_exists.1 hthread.2
        have hn' : o.thread = some n := hn
        rw [hn', Option.getD_some] at hgetD
        rw [hn', hgetD]
    next hthread =>
      -- everything starts again
      have hreport : (if settings.use_langgraph then o.thread.getD .authorize else .authorize) ≠
          Node.report := by
        split
        next hgraph =>
          have hnone : o.thread = none := by
            by_contra hsome
            exact hthread ⟨hgraph, Option.isSome_iff_ne_none.2 hsome⟩
          rw [hnone]
          decide
        next => decide
      rw [start_assessment, if_neg (by rintro ⟨⟩)]
      exact Or.inl (goto_willScore _ _ hreport)

end Orchestrator

namespace Dossier

variable {digest : Text → Text} {registry : _Registry} {record : AuthorizationRecord}
variable {settings : Settings} {d d' : Dossier}
variable [u : UnicodeTables]

open Orchestrator (Inv bookkeeping respects_bookkeeping)

/-! ### The invariant -/

/-- A step that changes nothing scoring reads, in a state that has nothing to make up for. -/
structure Clean (settings : Settings) (d : Dossier) (e : EngineEvent) (o' : Orchestrator) : Prop where
  still : d.engine.Still o'
  delivered : d.engine.delivered e = none
  clears : e.clears settings d.engine = false
  scored : d.unscored = false

/-- **A step of the engine is made up for by a scoring to come, or there is nothing to make up for.** -/
theorem willScore_or_clean {K : Clearance} {e : EngineEvent} {o' : Orchestrator}
    (hI : Inv registry record settings K d.engine)
    (hU : d.unscored = true → d.engine.WillScore) (hscorer : e.scorer = none)
    (hsettles : EngineSettles registry record settings d e)
    (h : Orchestrator.step registry record settings d.engine e = some o') :
    o'.WillScore ∨ Clean settings d e o' := by
  have hundisturbed (hu : d.engine.Undisturbed o') (hdelivered : d.engine.delivered e = none)
      (hclears : e.clears settings d.engine = false) : o'.WillScore ∨ Clean settings d e o' := by
    cases hs : d.unscored with
    | true => exact Or.inl (hu.willScore (hU hs))
    | false => exact Or.inr ⟨hu.toStill, hdelivered, hclears, hs⟩
  cases e with
  | main e =>
    obtain ⟨m, main, h⟩ := Option.bind_eq_some_iff.1 h
    have hscored : e ≠ .scored := by
      rintro rfl
      cases hscorer
    by_cases hends : m.pc.willScore = false ∨ d.engine.givesUp registry record settings m e = true
    · obtain ⟨hstill, hexec, hdelivered⟩ := Orchestrator.still_of_mainStep hI main h hends
      have hothers (hex : ∃ x ∈ d.engine.executions, x.pc ≠ .finished) :
          o'.WillScore ∨ Clean settings d (.main e) o' := by
        rw [← hexec] at hex
        exact Or.inl (Or.inr hex)
      rcases hsettles with hs | hex | hgo
      · exact Or.inr ⟨hstill, hdelivered, rfl, hs⟩
      · exact hothers hex
      · -- the task has scored, so whoever is going to score is an execution
        have hw : m.pc.willScore = false := by
          refine hends.resolve_right fun hgo' ↦ ?_
          exact Bool.false_ne_true ((hgo m main).symm.trans hgo')
        cases hs : d.unscored with
        | false => exact Or.inr ⟨hstill, hdelivered, rfl, hs⟩
        | true =>
          rcases hU hs with ⟨m', hm', hw'⟩ | hex
          · rw [← Option.some.inj (main.symm.trans hm'), hw] at hw'
            cases hw'
          · exact hothers hex
    · rw [not_or, Bool.not_eq_false, Bool.not_eq_true] at hends
      exact Or.inl (Orchestrator.willScore_of_mainStep hends.1 hscored hends.2 main h)
  | execution j e =>
    obtain ⟨x, execution, h⟩ := Option.bind_eq_some_iff.1 h
    have hscored : e ≠ .scored := by
      rintro rfl
      cases hscorer
    cases hgo : d.engine.executionGivesUp record settings x e with
    | false => exact Or.inl (Orchestrator.willScore_of_executionStep hscored hgo execution h)
    | true =>
      obtain ⟨hstill, hmain, ⟨x', hexec⟩, hdelivered⟩ := Orchestrator.still_of_executionStep hI hgo h
      rcases hsettles with hs | hex | ⟨y, hy, hpc⟩ | hgo'
      · exact Or.inr ⟨hstill, hdelivered, rfl, hs⟩
      · rw [← hmain] at hex
        exact Or.inl (Or.inl hex)
      · -- another execution is untouched
        obtain ⟨i, hne, hi⟩ := List.mem_eraseIdx_iff_getElem?.1 hy
        have hmem : y ∈ o'.executions := by
          rw [hexec]
          have hy' : (d.engine.executions.set j x')[i]? = some y := by
            rw [List.getElem?_set_ne hne.symm, hi]
          exact List.mem_of_getElem? hy'
        exact Or.inl (Or.inr ⟨y, hmem, hpc⟩)
      · exact absurd (hgo' x execution) (by rw [hgo]; decide)
  | task i e =>
    obtain ⟨t, -, h⟩ := Option.bind_eq_some_iff.1 h
    exact hundisturbed (Orchestrator.undisturbed_taskStep h) rfl rfl
  | start reset =>
    exact hundisturbed (Option.some.inj h ▸ Orchestrator.undisturbed_start _ _) rfl rfl
  | cancel =>
    refine hundisturbed ?_ rfl rfl
    rw [← Option.some.inj h, Orchestrator.cancel]
    dsimp only
    split
    · exact .of_eq rfl rfl rfl rfl
    · split <;> exact .of_eq rfl rfl rfl rfl
  | cancel_all =>
    refine hundisturbed ?_ rfl rfl
    rw [← Option.some.inj h, Orchestrator.cancel_all]
    split <;> exact .of_eq rfl rfl rfl rfl
  | approve step_id user_id note =>
    refine hundisturbed ?_ rfl rfl
    rw [← Option.some.inj h, Orchestrator.approve_step]
    split
    next held =>
      have hdecide := Orchestrator.undisturbed_decideStep hI held .approved (by decide)
        fun dec ↦ { dec with approved_by := some user_id, approval_note := some note }
      have happroved : d.engine.Undisturbed {
          d.engine.decideStep step_id .approved fun dec ↦
            { dec with approved_by := some user_id, approval_note := some note } with
          approvals := d.engine.approvals ++ [step_id] } :=
        hdecide.trans (.of_eq rfl rfl rfl rfl)
      dsimp only
      split
      · exact happroved.trans (Orchestrator.undisturbed_start_approved_steps _ _)
      · exact happroved.trans (Orchestrator.undisturbed_resume_if_parked _)
    next => exact .of_eq rfl rfl rfl rfl
  | deny step_id user_id note =>
    refine hundisturbed ?_ rfl rfl
    rw [← Option.some.inj h, Orchestrator.deny_step]
    split
    next held =>
      have hdecide := Orchestrator.undisturbed_decideStep hI held .denied (by decide)
        fun dec ↦ { dec with denied_by := some user_id, denial_note := some note }
      have hdenied : d.engine.Undisturbed {
          d.engine.decideStep step_id .denied fun dec ↦
            { dec with denied_by := some user_id, denial_note := some note } with
          denials := d.engine.denials ++ [step_id] } :=
        hdecide.trans (.of_eq rfl rfl rfl rfl)
      exact hdenied.trans (Orchestrator.undisturbed_resume_if_parked _)
    next => exact .of_eq rfl rfl rfl rfl
  | triage => exact hundisturbed (Option.some.inj h ▸ .of_eq rfl rfl rfl rfl) rfl rfl
  | ingest found =>
    have heq := Option.some.inj h
    rcases hsettles with hw | hknown
    · obtain ⟨-, hmain, hexec⟩ := Orchestrator.sameData_addEndpoints d.engine found
      rw [heq] at hmain hexec
      refine Or.inl ?_
      rw [Orchestrator.WillScore, hmain, hexec]
      exact hw
    · rw [Orchestrator.addEndpoints_of_known hknown] at heq
      exact hundisturbed (heq ▸ .of_eq rfl rfl rfl rfl) rfl rfl
  | register skills => exact hundisturbed (Option.some.inj h ▸ .of_eq rfl rfl rfl rfl) rfl rfl
  | restart =>
    rcases Orchestrator.restart_spec settings d.engine with hw | ⟨hstill, hclears, hresumes⟩
    · exact Or.inl (Option.some.inj h ▸ hw)
    · rcases hsettles with hs | hgoes
      · exact Or.inr ⟨Option.some.inj h ▸ hstill, rfl, hclears, hs⟩
      · exact absurd hgoes (by rw [hresumes]; decide)

/-- The step of a scoring leaves what it reads alone. -/
theorem still_of_scorer {e : EngineEvent} {who : Option ℕ} {o o' : Orchestrator}
    (hscorer : e.scorer = some who)
    (h : Orchestrator.step registry record settings o e = some o') : o.Still o' := by
  rw [EngineEvent.scorer.eq_def] at hscorer
  split at hscorer
  · obtain ⟨m, main, h⟩ := Option.bind_eq_some_iff.1 h
    simp only [Orchestrator.mainStep] at h
    split at h
    · rw [← Option.some.inj h]
      obtain ⟨coverage, heq⟩ := Orchestrator._phase_score_eq registry record o
      rw [heq]
      exact .of_eq rfl rfl
    · cases h
  · obtain ⟨x, execution, h⟩ := Option.bind_eq_some_iff.1 h
    simp only [Orchestrator.executionStep] at h
    split at h
    · rw [← Option.some.inj h]
      obtain ⟨coverage, heq⟩ := Orchestrator._phase_score_eq registry record o
      rw [heq]
      exact .of_eq rfl rfl
    · cases h
  · cases hscorer

omit u in
/-- A copy stays current while nothing it is read off changes. -/
theorem RiskCurrent.congr (h : RiskCurrent record d) (hinputs : d'.inputs = d.inputs)
    (hrisk : d'.risk = d.risk) : RiskCurrent record d' := by
  rw [inputs, inputs, Prod.mk.injEq, Prod.mk.injEq] at hinputs
  obtain ⟨hfindings, hendpoints, hdone⟩ := hinputs
  refine ⟨fun f hf ↦ ?_, ?_⟩
  · rw [hfindings] at hf
    rw [hendpoints]
    exact h.scores f hf
  · have hsame : riskOf d'.engine d.findings = riskOf d.engine d.findings := by
      rw [riskOf, riskOf, testedEndpoints, testedEndpoints, hdone, hendpoints]
    rw [hrisk, hfindings, hsame]
    exact h.summary

omit u in
/-- Scoring makes the copies current. -/
theorem riskCurrent_of_score {o' : Orchestrator} (hstill : d.engine.Still o')
    (hfindings : d'.findings = (d._phase_score record).findings)
    (hrisk : d'.risk = (d._phase_score record).risk) (hengine : d'.engine = o') :
    RiskCurrent record d' := by
  have hscored : RiskCurrent record (d._phase_score record) := by
    refine ⟨fun f hf ↦ ?_, rfl⟩
    obtain ⟨g, hg, rfl⟩ := List.mem_map.1 hf
    rfl
  refine hscored.congr ?_ hrisk
  rw [inputs, inputs, hfindings, hengine, hstill.endpoints, hstill.done]
  rfl

/-- **The invariant.** -/
structure Scored (registry : _Registry) (record : AuthorizationRecord) (settings : Settings)
    (d : Dossier) : Prop where
  engine : Inv registry record settings bookkeeping d.engine
  current : d.risk.isSome = true → d.unscored = false → RiskCurrent record d
  pending : d.risk.isSome = true → d.unscored = true → d.engine.WillScore

/-- Only a scoring writes the risk. -/
theorem risk_of_act {e : DossierEvent} (hscores : e.scores = false)
    (h : act digest registry record settings d e = some d') : d'.risk = d.risk := by
  cases e with
  | engine e found =>
    have hscorer : e.scorer = none :=
      Option.isNone_iff_eq_none.1 (Option.isSome_eq_false_iff.1 hscores)
    obtain ⟨o', -, hrows⟩ := Option.bind_eq_some_iff.1 h
    obtain ⟨d₁, hd₁, rfl⟩ := Option.map_eq_some_iff.1 hrows
    obtain ⟨findings, nextFinding, rfl, -⟩ := rows_eq hscorer hd₁
    rfl
  | suppress who =>
    rw [act] at h
    split at h
    · exact Option.some.inj h ▸ rfl
    · cases h
  | validate who finding_id outcome =>
    rw [act] at h
    split at h
    · exact Option.some.inj h ▸ rfl
    · cases h
  | triage finding_id status =>
    rw [act] at h
    split at h
    · obtain ⟨f, -, rfl⟩ := Option.map_eq_some_iff.1 h
      rfl
    · cases h
  | known keys => exact Option.some.inj h ▸ rfl

omit u in
/-- Setting the status a finding has changes nothing. -/
theorem setStatus_of_unchanged {finding_id : ℕ} {status : FindingStatus}
    (h : ∀ f ∈ d.findings, f.id = finding_id → f.status = status) : d.setStatus finding_id status = d := by
  have hfindings : d.findings.map (fun f ↦ if f.id = finding_id then { f with status } else f) =
      d.findings := by
    conv_rhs => rw [← List.map_id d.findings]
    refine List.map_congr_left fun f hf ↦ ?_
    split
    next hid => rw [← h f hf hid, id]
    next => rfl
  rw [setStatus, hfindings]

/-- **A step that does not score**: what it writes is made up for by a scoring to come, or it writes
nothing scoring reads, and there is nothing to make up for. -/
theorem act_spec {e : DossierEvent} (hS : Scored registry record settings d)
    (hrisk : d.risk.isSome = true) (hscores : e.scores = false)
    (hC : Settles registry record settings d e)
    (h : act digest registry record settings d e = some d') :
    d'.engine.WillScore ∨ d'.inputs = d.inputs ∧ d.unscored = false := by
  have hU := hS.pending hrisk
  -- a step that leaves the engine alone
  have hsame {d₁ : Dossier} (hengine : d₁.engine = d.engine)
      (hw : d.engine.WillScore ∨ d₁.inputs = d.inputs) :
      d₁.engine.WillScore ∨ d₁.inputs = d.inputs ∧ d.unscored = false := by
    rw [hengine]
    rcases hw with hw | hinputs
    · exact Or.inl hw
    · cases hs : d.unscored with
      | true => exact Or.inl (hU hs)
      | false => exact Or.inr ⟨hinputs, rfl⟩
  cases e with
  | engine e found =>
    have hscorer : e.scorer = none :=
      Option.isNone_iff_eq_none.1 (Option.isSome_eq_false_iff.1 hscores)
    obtain ⟨o', hengine, hrows⟩ := Option.bind_eq_some_iff.1 h
    obtain ⟨d₁, hd₁, rfl⟩ := Option.map_eq_some_iff.1 hrows
    obtain ⟨findings, nextFinding, rfl, hkept⟩ := rows_eq hscorer hd₁
    rcases willScore_or_clean hS.engine hU hscorer (hC hrisk) hengine with hw | hclean
    · exact Or.inl hw
    · refine Or.inr ⟨?_, hclean.scored⟩
      have hfindings := hkept hclean.delivered hclean.clears
      rw [inputs, inputs, Prod.mk.injEq, Prod.mk.injEq]
      exact ⟨hfindings, hclean.still.endpoints, hclean.still.done⟩
  | suppress who =>
    rw [act] at h
    split at h
    next hscoring =>
      rw [← Option.some.inj h]
      exact Or.inl (Orchestrator.willScore_of_isScoring hscoring.1)
    next => cases h
  | validate who finding_id outcome =>
    rw [act] at h
    split at h
    next hvalidating =>
      rw [← Option.some.inj h]
      exact Or.inl (Orchestrator.willScore_of_isValidating hvalidating)
    next => cases h
  | triage finding_id status =>
    rw [act] at h
    split at h
    next =>
      obtain ⟨f, -, rfl⟩ := Option.map_eq_some_iff.1 h
      refine hsame rfl ((hC hrisk).imp_right fun hunchanged ↦ ?_)
      rw [inputs, setStatus_of_unchanged hunchanged, inputs]
    next => cases h
  | known keys =>
    rw [← Option.some.inj h]
    exact hsame rfl (Or.inr rfl)

/-- A scoring leaves the copies current. -/
theorem riskCurrent_of_act {e : DossierEvent} (hscores : e.scores = true)
    (h : act digest registry record settings d e = some d') : RiskCurrent record d' := by
  cases e with
  | engine e found =>
    obtain ⟨who, hscorer⟩ := Option.isSome_iff_exists.1 hscores
    obtain ⟨o', hengine, hrows⟩ := Option.bind_eq_some_iff.1 h
    obtain ⟨d₁, hd₁, rfl⟩ := Option.map_eq_some_iff.1 hrows
    rw [rows, hscorer] at hd₁
    dsimp only at hd₁
    split at hd₁
    · rw [← Option.some.inj hd₁]
      exact riskCurrent_of_score (still_of_scorer hscorer hengine) rfl rfl rfl
    · cases hd₁
  | _ => cases hscores

/-- **Every step that meets the condition keeps the invariant.** -/
theorem Scored.step {e : DossierEvent} (hS : Scored registry record settings d)
    (hC : Settles registry record settings d e)
    (h : step digest registry record settings d e = some d') : Scored registry record settings d' := by
  have hengine : Inv registry record settings bookkeeping d'.engine := by
    rcases engine_of_step h with ⟨e', found, -, hstep⟩ | hsame
    · exact hS.engine.step (respects_bookkeeping _ _) hstep
    · exact hsame ▸ hS.engine
  rw [Dossier.step] at h
  obtain ⟨d₁, hact, rfl⟩ := Option.map_eq_some_iff.1 h
  cases hscores : e.scores with
  | true =>
    refine ⟨hengine, fun hrisk hun ↦ ?_, fun hrisk hun ↦ ?_⟩
    · exact (riskCurrent_of_act hscores hact).congr rfl rfl
    · exact absurd (show false = true from hun) (by decide)
  | false =>
    refine ⟨hengine, fun hrisk hun ↦ ?_, fun hrisk hun ↦ ?_⟩
    · -- nothing was unscored, and nothing was written
      have hrisk' := risk_of_act hscores hact
      have hnone : (d.unscored || decide (d₁.inputs ≠ d.inputs)) = false := hun
      rw [Bool.or_eq_false_iff] at hnone
      have hinputs : d₁.inputs = d.inputs := not_not.1 (of_decide_eq_false hnone.2)
      exact (hS.current (hrisk' ▸ hrisk) hnone.1).congr hinputs hrisk'
    · have hrisk' := risk_of_act hscores hact
      rcases act_spec hS (hrisk' ▸ hrisk) hscores hC hact with hw | ⟨hinputs, hs⟩
      · exact hw
      · have hsome : (d.unscored || decide (d₁.inputs ≠ d.inputs)) = true := hun
        rw [hs, hinputs] at hsome
        simp at hsome

/-- **The stored risk matches the findings.** After the first scoring, in every state of a run whose steps
meet the condition, if no task is there, the copies are what scoring would store now. -/
theorem riskCurrent_of_settles {assessment_id org_id : ℕ} {requested : List String}
    {incremental : Bool} {prev : Option (List Text)} {es : List DossierEvent}
    (hC : Machine.Along (step digest registry record settings) (Settles registry record settings)
      (created assessment_id org_id requested incremental prev) es)
    (h : Machine.run (step digest registry record settings)
      (created assessment_id org_id requested incremental prev) es = some d)
    (hrisk : d.risk.isSome = true) (hidle : d.engine.Idle) : RiskCurrent record d := by
  have hstart : Scored registry record settings
      (created assessment_id org_id requested incremental prev) :=
    ⟨Inv.created .., fun hrisk ↦ (by cases hrisk), fun hrisk ↦ (by cases hrisk)⟩
  have hS : Scored registry record settings d :=
    Machine.inv_of_run_along (fun hS hC hs ↦ hS.step hC hs) hC h hstart
  cases hs : d.unscored with
  | true => exact absurd (hS.pending hrisk hs) hidle.not_willScore
  | false => exact hS.current hrisk hs

end Dossier

section

attribute [local instance] asciiTables

/-- The operator confirms the finding before the run scores. -/
theorem riskCurrent_of_settles_early :
    ∃ d, Machine.run (Dossier.step headerDigest builtinRegistry (scanRecord ["security_headers"]) {})
        (.created 1 1 [] false none) (foundRun ++ [.triage 0 .CONFIRMED] ++ throughScoring) = some d ∧
      d.findings.map (·.risk_score) = [7875 / 100] ∧
      Dossier.RiskCurrent (scanRecord ["security_headers"]) d := by
  obtain ⟨d, hd, hscore, hrisk, hidle⟩ : ∃ d, Machine.run
      (Dossier.step headerDigest builtinRegistry (scanRecord ["security_headers"]) {})
      (.created 1 1 [] false none) (foundRun ++ [.triage 0 .CONFIRMED] ++ throughScoring) = some d ∧
      d.findings.map (·.risk_score) = [7875 / 100] ∧ d.risk.isSome = true ∧ d.engine.Idle := by
    decide +kernel
  exact ⟨d, hd, hscore, Dossier.riskCurrent_of_settles (by decide +kernel) hd hrisk hidle⟩

/-- The operator rejects the finding after the run: its score stays what it was. -/
theorem triaged_not_riskCurrent :
    ∃ d, Machine.run (Dossier.step headerDigest builtinRegistry (scanRecord ["security_headers"]) {})
        (.created 1 1 [] false none) (foundRun ++ throughScoring ++ [.triage 0 .REJECTED]) = some d ∧
      d.risk.isSome = true ∧ d.engine.Idle ∧
      ¬Dossier.RiskCurrent (scanRecord ["security_headers"]) d := by
  obtain ⟨d, hd, hrisk, hidle, f, hf, hscore⟩ : ∃ d, Machine.run
      (Dossier.step headerDigest builtinRegistry (scanRecord ["security_headers"]) {})
      (.created 1 1 [] false none) (foundRun ++ throughScoring ++ [.triage 0 .REJECTED]) = some d ∧
      d.risk.isSome = true ∧ d.engine.Idle ∧ ∃ f ∈ d.findings,
        f.risk_score ≠ Dossier.scoreOf (scanRecord ["security_headers"]) d.engine.endpoints f := by
    decide +kernel
  exact ⟨d, hd, hrisk, hidle, fun hcurrent ↦ hscore (hcurrent.scores f hf)⟩

end

end Sentrik
