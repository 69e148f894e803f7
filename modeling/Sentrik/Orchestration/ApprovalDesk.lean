import Sentrik.Orchestration.Custody

/-!
# The desk of approvals

The handler of an approval reads the step and the state of the assessment, and writes its decision later;
what it does then depends on the state it has **read**. A terminal state starts an execution, any other
one is left to the run. `Desk` adds to the orchestrator the handlers that have read and not yet written.

A step is lost when the decision is left to a run that does not look any more: after the bounded wait of
the inline driver, or past the execution of the graph. It is lost as well when the hands it is in go
away: by a new run of the inline driver, by the failure of an execution, by a restart. `Timely` excludes
these, and nothing else.
-/

namespace Sentrik

/-- What a handler of an approval has read. -/
structure Reading where
  step_id : ℕ
  user_id : ℕ
  note : String
  /-- The state of the assessment. -/
  seen : AssessmentState
  deriving DecidableEq, Repr

/-- The orchestrator and the handlers between their reading and their writing. -/
structure Desk where
  engine : Orchestrator
  readings : List Reading := []
  deriving DecidableEq, Repr

inductive DeskEvent
  | engine (e : EngineEvent)
  | read (step_id user_id : ℕ) (note : String)
  | commit (k : ℕ)

namespace Orchestrator

variable (settings : Settings)

/-- A parked run continues once nothing is held, if the state that was read says that it is parked. -/
def resumeSeen (o : Orchestrator) (seen : AssessmentState) : Orchestrator :=
  if o.main.isSome ∨ seen ≠ .POLICY_CHECK then o
  else if o.held_step_ids = [] then o.start_assessment settings
  else o

/-- The row and the record of an approval. -/
def writeApproval (o : Orchestrator) (r : Reading) : Orchestrator :=
  { o.decideStep r.step_id .approved fun d ↦
      { d with approved_by := some r.user_id, approval_note := some r.note } with
    approvals := o.approvals ++ [r.step_id] }

/-- The handler of an approval from its write on. -/
def commitApproval (o : Orchestrator) (r : Reading) : Orchestrator :=
  if r.seen ∈ TERMINAL_STATES then (o.writeApproval r).start_approved_steps [r.step_id]
  else resumeSeen settings (o.writeApproval r) r.seen

/-- The handler without anything in between is `approve_step`. -/
theorem approve_step_eq (o : Orchestrator) (step_id user_id : ℕ) (note : String) :
    approve_step settings o step_id user_id note =
      if o.held step_id then
        commitApproval settings o { step_id, user_id, note, seen := o.assessment.state }
      else o := rfl

end Orchestrator

section

variable (registry : _Registry) (record : AuthorizationRecord) (settings : Settings)
variable [u : UnicodeTables]

/-- A restart ends the handlers too; a handler that reads a step which is not held answers with an
error. -/
def deskStep (d : Desk) : DeskEvent → Option Desk
  | .engine e =>
    (Orchestrator.step registry record settings d.engine e).map fun engine ↦
      { engine, readings := if e.restarts then [] else d.readings }
  | .read step_id user_id note =>
    if d.engine.held step_id then
      some { d with readings := d.readings ++ [⟨step_id, user_id, note, d.engine.assessment.state⟩] }
    else none
  | .commit k =>
    d.readings[k]?.map fun r ↦
      { engine := Orchestrator.commitApproval settings d.engine r, readings := d.readings.eraseIdx k }

end

namespace Orchestrator

/-! ### When nothing is lost -/

section

variable (settings : Settings)

/-- Somebody takes the approved step up: an execution, if the state that was read is terminal, and else
the run, which can still do it. -/
def Picked (o : Orchestrator) (seen : AssessmentState) (id : ℕ) : Prop :=
  seen ∈ TERMINAL_STATES ∨
    Keeps settings o id ∧ (o.main = none → settings.use_langgraph = true)

instance (o : Orchestrator) (seen : AssessmentState) (id : ℕ) : Decidable (Picked settings o seen id) :=
  inferInstanceAs (Decidable (_ ∨ _))

/-- A run of the inline driver that is launched now finds nothing that waits for a run. -/
def ClearsDesk (o : Orchestrator) : Prop :=
  settings.use_langgraph = false → o.main = none → ∀ s ∈ o.steps, o.Waits s → o.ExecutionTakes s.id

instance (o : Orchestrator) : Decidable (ClearsDesk settings o) :=
  inferInstanceAs (Decidable (_ → _ → ∀ s ∈ o.steps, _ → _))

/-- What waits for the execution waits for the run too. -/
def SparesWaiting (o : Orchestrator) (x : Execution) : Prop :=
  ∀ s ∈ o.steps, o.Waits s → s.id ∈ x.pc.copies.map (·.id) → Keeps settings o s.id

instance (o : Orchestrator) (x : Execution) : Decidable (SparesWaiting settings o x) :=
  inferInstanceAs (Decidable (∀ s ∈ o.steps, _ → _ → _))

/-- The assessment is taken up again before execution, or nothing waits. -/
def ResumesWaiting (o : Orchestrator) : Prop :=
  ∀ s ∈ o.steps, o.Waits s →
    (∀ n ∈ o.thread, n.early = true) ∧ o.assessment.state ≠ .COMPLETED

instance (o : Orchestrator) : Decidable o.ResumesWaiting :=
  inferInstanceAs (Decidable (∀ s ∈ o.steps, _ → _))

/-- The condition on a step of the engine. -/
def TimelyStep (o : Orchestrator) : EngineEvent → Prop
  | .main (.coordinate elects_stop) => elects_stop = false
  | .execution j .raise => ∀ x ∈ o.executions[j]?, SparesWaiting settings o x
  | .start _ => o.assessment.state = .CREATED ∨ o.assessment.state = .FAILED → ClearsDesk settings o
  | .deny .. => o.assessment.state = .POLICY_CHECK → ClearsDesk settings o
  | .approve step_id _ _ =>
    o.held step_id = true → Picked settings o o.assessment.state step_id
  | .restart => o.ResumesWaiting
  | _ => True

instance (o : Orchestrator) (e : EngineEvent) : Decidable (TimelyStep settings o e) :=
  match e with
  | .main (.coordinate elects_stop) => inferInstanceAs (Decidable (elects_stop = false))
  | .main (.enter _) | .main (.discovered _) | .main (.plan ..) | .main .policy | .main (.poll _)
  | .main .send | .main .dispatch | .main (.deliver ..) | .main .drained | .main (.retry _)
  | .main .retried | .main (.replan _) | .main .validated | .main .scored | .main .reported
  | .main (.raise _) | .main .cancelled | .main .leave => isTrue trivial
  | .execution j .raise => inferInstanceAs (Decidable (∀ x ∈ o.executions[j]?, SparesWaiting settings o x))
  | .execution _ (.begin _) | .execution _ .send | .execution _ .dispatch | .execution _ (.deliver ..)
  | .execution _ .drained | .execution _ .validated | .execution _ .scored => isTrue trivial
  | .start _ | .deny .. | .approve .. => inferInstanceAs (Decidable (_ → _))
  | .restart => inferInstanceAs (Decidable o.ResumesWaiting)
  | .task .. | .cancel | .cancel_all | .triage | .ingest _ | .register _ => isTrue trivial

end

end Orchestrator

/-- **The condition on a step**: whoever decides finds the step held and leaves it to somebody who takes
it up. -/
def Timely (settings : Settings) (d : Desk) : DeskEvent → Prop
  | .engine e => Orchestrator.TimelyStep settings d.engine e
  | .read .. => True
  | .commit k => ∀ r ∈ d.readings[k]?, d.engine.held r.step_id = true ∧
      Orchestrator.Picked settings d.engine r.seen r.step_id

instance (settings : Settings) (d : Desk) (e : DeskEvent) : Decidable (Timely settings d e) := by
  cases e with
  | engine e => exact inferInstanceAs (Decidable (Orchestrator.TimelyStep settings d.engine e))
  | read step_id user_id note => exact inferInstanceAs (Decidable True)
  | commit k => exact inferInstanceAs (Decidable (∀ r ∈ d.readings[k]?, _))

namespace Orchestrator

variable {registry : _Registry} {record : AuthorizationRecord} {settings : Settings}
variable {o o' : Orchestrator} {m m' : Main} {id : ℕ}

/-! ### The decision of an operator -/

theorem writeApproval_sameRun (o : Orchestrator) (r : Reading) : SameRun o (o.writeApproval r) :=
  ⟨rfl, rfl, rfl, rfl⟩

theorem control_resumeSeen (o : Orchestrator) (seen : AssessmentState) :
    Control o (resumeSeen settings o seen) := by
  rw [resumeSeen]
  split
  · exact Control.refl o
  split
  · exact control_start_assessment o
  · exact Control.refl o

theorem hands_resumeSeen {seen : AssessmentState} (hands : o.ExecutionTakes id ∨ Keeps settings o id)
    (hlaunch : seen = .POLICY_CHECK → settings.use_langgraph = false → o.main = none →
      o.ExecutionTakes id) :
    (resumeSeen settings o seen).ExecutionTakes id ∨ Keeps settings (resumeSeen settings o seen) id := by
  rw [resumeSeen]
  split
  · exact hands
  next hparked =>
    split
    · exact hands_launch hands (hlaunch (by simpa using (not_or.1 hparked).2))
    · exact hands

theorem executionTakes_start_approved_steps {step_ids : List ℕ} (hT : o.ExecutionTakes id) :
    (o.start_approved_steps step_ids).ExecutionTakes id := by
  rw [start_approved_steps]
  split
  · exact hT
  · obtain ⟨x, hx, htakes⟩ := hT
    exact ⟨x, List.mem_append_left _ hx, htakes⟩

theorem start_approved_steps_tasks (o : Orchestrator) (step_ids : List ℕ) :
    (o.start_approved_steps step_ids).tasks = o.tasks := by
  rw [start_approved_steps]
  split <;> rfl

theorem resumeSeen_tasks (o : Orchestrator) (seen : AssessmentState) :
    (resumeSeen settings o seen).tasks = o.tasks ∧
      (resumeSeen settings o seen).executions = o.executions := by
  rw [resumeSeen]
  split
  · exact ⟨rfl, rfl⟩
  split
  · rw [start_assessment]
    split <;> exact ⟨rfl, rfl⟩
  · exact ⟨rfl, rfl⟩

/-- The sweep at startup takes the run up again before execution, or clears the steps. -/
theorem keeps_restart (early : ∀ n ∈ o.thread, n.early = true)
    (unfinished : o.assessment.state ≠ .COMPLETED)
    (hs : (resume_incomplete_assessments settings o.crash).steps ≠ []) :
    Keeps settings (resume_incomplete_assessments settings o.crash) id := by
  have hcrash : Keeps settings o.crash id := .of_idle early unfinished rfl
  rw [resume_incomplete_assessments] at hs ⊢
  split
  · exact hcrash
  next hopen =>
    rw [if_neg hopen] at hs
    split
    next hthread => exact hcrash.launch fun _ ↦ hthread.1
    next hfresh =>
      rw [if_neg hfresh] at hs
      refine absurd ?_ hs
      rw [start_assessment]
      rfl

theorem restart_executions (o : Orchestrator) :
    (resume_incomplete_assessments settings o.crash).executions = [] := by
  rw [resume_incomplete_assessments]
  split
  · rfl
  split
  · rw [start_assessment]
    split <;> rfl
  · rw [start_assessment]
    split <;> rfl

variable [u : UnicodeTables]

theorem move_commitApproval (r : Reading) (held : o.held r.step_id = true) :
    Move registry record settings o (.approve r.step_id r.user_id r.note)
      (commitApproval settings o r) := by
  rw [commitApproval]
  split
  · exact .approved held (control_start_approved_steps _ _)
  · exact .approved held (control_resumeSeen _ _)

/-- **The decision** leaves the step to somebody who takes it up, and what waits where it is. -/
theorem Safe.commit (hS : Safe registry record settings o) (r : Reading)
    (held : o.held r.step_id = true) (picked : Picked settings o r.seen r.step_id) :
    Safe registry record settings (commitApproval settings o r) := by
  have hmove : Move registry record settings o (.approve r.step_id r.user_id r.note)
      (commitApproval settings o r) := move_commitApproval r held
  have hinv := hS.inv.move (respects_bookkeeping _ _) hmove
  have hfresh : r.step_id ∉ o.approvals := by
    intro hid
    obtain ⟨s, hs, hsid, hst⟩ := exists_of_held held
    exact (hS.registered.decided s hs (hsid ▸ hid)).1 hst
  have hkept : (commitApproval settings o r).tasks = o.tasks := by
    rw [commitApproval]
    split
    · exact start_approved_steps_tasks _ _
    · exact (resumeSeen_tasks _ _).1
  have happrovals : (commitApproval settings o r).approvals = o.approvals ++ [r.step_id] := by
    rw [commitApproval]
    split
    · rw [(control_start_approved_steps _ _).approvals]
      rfl
    · rw [(control_resumeSeen _ _).approvals]
      rfl
  refine ⟨hinv, hS.keyed.move hinv hmove, hS.registered.move hS.inv hmove, fun x hx id hid ↦ ?_,
    fun s hs hW ↦ ?_⟩
  · rw [happrovals]
    rw [commitApproval] at hx
    split at hx
    · rw [start_approved_steps] at hx
      split at hx
      · exact List.mem_append_left _ (hS.launched x hx id hid)
      · rcases List.mem_append.1 hx with hx | hx
        · exact List.mem_append_left _ (hS.launched x hx id hid)
        · rw [List.mem_singleton.1 hx] at hid
          exact List.mem_append_right _ hid
    · rw [(resumeSeen_tasks _ _).2] at hx
      exact List.mem_append_left _ (hS.launched x hx id hid)
  · have hlaunch : r.seen = .POLICY_CHECK → settings.use_langgraph = false →
        (o.writeApproval r).main = none → (o.writeApproval r).ExecutionTakes s.id := by
      intro hseen inline idle
      rcases picked with hterminal | ⟨-, graph⟩
      · rw [hseen] at hterminal
        exact absurd hterminal (by decide)
      · rw [graph idle] at inline
        cases inline
    rcases waits_of_move hS.registered hS.inv hmove
      (fun t ht ↦ ⟨t, hkept ▸ ht, rfl⟩) hs hW with ⟨hmem, hold⟩ | ⟨-, hheld⟩
    · -- a step that waited before
      have hands : (o.writeApproval r).ExecutionTakes s.id ∨
          Keeps settings (o.writeApproval r) s.id :=
        (hS.inHands s hmem hold).imp id fun hK ↦ hK.of_sameRun (writeApproval_sameRun o r)
      rw [commitApproval]
      split
      · exact hands.imp executionTakes_start_approved_steps fun hK ↦
          hK.of_sameRun (sameRun_start_approved_steps _ _)
      · exact hands_resumeSeen hands hlaunch
    · -- the step that is approved now
      have hsid : s.id = r.step_id := by
        by_contra hne
        have hmem := hW.2.1
        rw [happrovals] at hmem
        rcases List.mem_append.1 hmem with hmem | hmem
        · obtain ⟨s', hs', hid', hst'⟩ := exists_of_held hheld
          exact (hS.registered.decided s' hs' (hid' ▸ hmem)).1 hst'
        · exact hne (List.mem_singleton.1 hmem)
      rw [hsid] at hlaunch ⊢
      rw [commitApproval]
      split
      next hterminal =>
        left
        have hnew : ¬(o.writeApproval r).executions.any (fun x ↦ x.step_ids == [r.step_id] &&
            x.pc != .finished) = true := by
          intro hany
          obtain ⟨x, hx, hlive⟩ := List.any_eq_true.1 hany
          have hids : x.step_ids = [r.step_id] := by
            simp only [Bool.and_eq_true, beq_iff_eq] at hlive
            exact hlive.1
          exact hfresh (hS.launched x hx _ (hids ▸ List.mem_singleton_self _))
        rw [start_approved_steps, if_neg hnew]
        exact ⟨{ step_ids := [r.step_id] }, List.mem_append_right _ (List.mem_singleton_self _), by
          simp [Execution.takes]⟩
      next hopen =>
        have hK := (picked.resolve_left hopen).1.of_sameRun (writeApproval_sameRun o r)
        exact hands_resumeSeen (Or.inr hK) hlaunch

/-! ### The other steps -/

/-- The task of the run, an execution or an agent makes a step. -/
theorem Safe.hands {e : EngineEvent} (hS : Safe registry record settings o)
    (h : step registry record settings o e = some o') (hT : TimelyStep settings o e) {s : PlanStep}
    (hs : s ∈ o.steps) (hW : o.Waits s) (hs' : s ∈ o'.steps) (hW' : o'.Waits s)
    (he : ∀ step_id user_id note, e ≠ .approve step_id user_id note) :
    o'.ExecutionTakes s.id ∨ Keeps settings o' s.id := by
  have hands := hS.inHands s hs hW
  have hexecutions : ∀ {o₁ : Orchestrator}, o₁.executions = o.executions →
      o.ExecutionTakes s.id → o₁.ExecutionTakes s.id :=
    fun heq ⟨x, hx, htakes⟩ ↦ ⟨x, heq ▸ hx, htakes⟩
  have hsame : ∀ {o₁ : Orchestrator}, SameRun o o₁ → o₁.executions = o.executions →
      o₁.ExecutionTakes s.id ∨ Keeps settings o₁ s.id :=
    fun same heq ↦ hands.imp (hexecutions heq) fun hK ↦ hK.of_sameRun same
  cases e with
  | main e =>
    obtain ⟨m, main, h⟩ := Option.bind_eq_some_iff.1 h
    rcases hands with hE | hK
    · exact Or.inl (hexecutions (executions_mainStep h) hE)
    · refine Or.inr ((hK.mainStep main hs rfl hW.1 (fun r hr hrid ↦ ?_) (fun hstop ↦ ?_) h).resolve_left
        hW'.2.2)
      · have hcopies : r ∈ o.copies := mem_copies.2 (Or.inl ⟨m, main, List.mem_append_right _ hr⟩)
        exact hS.resolves hs hW.2.1 hcopies hrid
      · subst hstop
        cases hT
  | execution j e =>
    obtain ⟨x, execution, h⟩ := Option.bind_eq_some_iff.1 h
    rcases hands with hE | hK
    · have hcopies : ∀ r ∈ x.pc.copies, r ∈ o.copies := fun r hr ↦
        mem_copies.2 (Or.inr ⟨x, List.mem_of_getElem? execution, hr⟩)
      rcases hE.executionStep execution hs rfl hW.1
        (fun r hr hrid ↦ hS.resolves hs hW.2.1 (hcopies r hr) hrid) h with
        hhanded | hE | hskipped | ⟨rfl, r, hr, hrid⟩
      · exact absurd hhanded hW'.2.2
      · exact Or.inl hE
      · exact absurd hW'.1 (hskipped s hs' rfl)
      · -- the execution has failed with the step in its hands
        have hK := hT x execution s hs hW (List.mem_map.2 ⟨r, hr, hrid⟩)
        exact Or.inr (hK.of_sameRun (sameRun_executionStep h))
    · exact Or.inr (hK.of_sameRun (sameRun_executionStep h))
  | task i e =>
    obtain ⟨t, task, h⟩ := Option.bind_eq_some_iff.1 h
    exact hands.imp (hexecutions (executions_taskStep h)) fun hK ↦ hK.of_sameRun (sameRun_taskStep h)
  | start reset =>
    rw [← Option.some.inj h, start]
    split
    next hstate =>
      have hlaunch : settings.use_langgraph = false → o.main = none → o.ExecutionTakes s.id :=
        fun inline idle ↦ hT hstate inline idle s hs hW
      cases reset with
      | true => exact hands_launch (hsame ⟨rfl, rfl, rfl, rfl⟩ rfl) hlaunch
      | false => exact hands_launch hands hlaunch
    next => exact hands
  | cancel =>
    rw [← Option.some.inj h, cancel]
    dsimp only
    split
    · exact hands
    split
    · exact hsame ⟨rfl, rfl, rfl, rfl⟩ rfl
    next hidle =>
      have idle : o.main = none := by simpa using hidle
      exact hands.imp id fun hK ↦ .of_idle hK.early (fun h ↦ by cases h) idle
  | cancel_all =>
    rw [← Option.some.inj h, cancel_all]
    split
    · exact hands
    · exact hsame ⟨rfl, rfl, rfl, rfl⟩ rfl
  | approve step_id user_id note => exact absurd rfl (he step_id user_id note)
  | deny step_id user_id note =>
    rw [← Option.some.inj h, deny_step]
    dsimp only
    split
    · exact hands_resumeSeen (hsame ⟨rfl, rfl, rfl, rfl⟩ rfl) fun hparked inline idle ↦
        hT hparked inline idle s hs hW
    · exact hands
  | triage => exact Option.some.inj h ▸ hands
  | ingest found =>
    rw [← Option.some.inj h]
    exact hsame (sameRun_addEndpoints o found) (sameData_addEndpoints o found).2.2
  | register skills => exact Option.some.inj h ▸ hsame ⟨rfl, rfl, rfl, rfl⟩ rfl
  | restart =>
    obtain ⟨early, unfinished⟩ := hT s hs hW
    rw [← Option.some.inj h] at hs' ⊢
    exact Or.inr (keeps_restart early unfinished (List.ne_nil_of_mem hs'))

/-- Executions are launched by approvals only. -/
theorem step_ids_of_step {e : EngineEvent} (h : step registry record settings o e = some o')
    (he : ∀ step_id user_id note, e ≠ .approve step_id user_id note) :
    ∀ x' ∈ o'.executions, ∃ x ∈ o.executions, x'.step_ids = x.step_ids := by
  have hsame : o'.executions = o.executions → ∀ x' ∈ o'.executions, ∃ x ∈ o.executions,
      x'.step_ids = x.step_ids := fun heq x hx ↦ ⟨x, heq ▸ hx, rfl⟩
  have hstart : ∀ o : Orchestrator, (start_assessment settings o).executions = o.executions := by
    intro o
    rw [start_assessment]
    split <;> rfl
  cases e with
  | main e =>
    obtain ⟨m, -, h⟩ := Option.bind_eq_some_iff.1 h
    exact hsame (executions_mainStep h)
  | execution j e =>
    obtain ⟨x, execution, h⟩ := Option.bind_eq_some_iff.1 h
    obtain ⟨pc, client, heq⟩ := executions_executionStep execution h
    intro x' hx'
    rw [heq] at hx'
    rcases List.mem_or_eq_of_mem_set hx' with hx' | rfl
    · exact ⟨x', hx', rfl⟩
    · exact ⟨x, List.mem_of_getElem? execution, rfl⟩
  | task i e =>
    obtain ⟨t, -, h⟩ := Option.bind_eq_some_iff.1 h
    exact hsame (executions_taskStep h)
  | start reset =>
    refine hsame ?_
    rw [← Option.some.inj h, start]
    split
    · rw [hstart]
      cases reset <;> rfl
    · rfl
  | cancel =>
    refine hsame ?_
    rw [← Option.some.inj h, cancel]
    dsimp only
    split_ifs <;> rfl
  | cancel_all =>
    refine hsame ?_
    rw [← Option.some.inj h, cancel_all]
    split <;> rfl
  | approve step_id user_id note => exact absurd rfl (he step_id user_id note)
  | deny step_id user_id note =>
    refine hsame ?_
    rw [← Option.some.inj h, deny_step]
    dsimp only
    split
    · exact (resumeSeen_tasks _ _).2
    · rfl
  | triage => exact hsame (by rw [← Option.some.inj h])
  | ingest found =>
    refine hsame ?_
    rw [← Option.some.inj h]
    exact (sameData_addEndpoints o found).2.2
  | register skills => exact hsame (by rw [← Option.some.inj h])
  | restart =>
    rw [← Option.some.inj h, restart_executions]
    exact fun x hx ↦ absurd hx List.not_mem_nil

/-- **A step of the engine** keeps the invariant. -/
theorem Safe.step {e : EngineEvent} (hS : Safe registry record settings o)
    (hT : TimelyStep settings o e) (h : step registry record settings o e = some o') :
    Safe registry record settings o' := by
  by_cases he : ∃ step_id user_id note, e = .approve step_id user_id note
  · obtain ⟨step_id, user_id, note, rfl⟩ := he
    rw [← Option.some.inj h, approve_step_eq]
    split
    next held => exact hS.commit { step_id, user_id, note, seen := o.assessment.state } held (hT held)
    next => exact hS
  have he : ∀ step_id user_id note, e ≠ .approve step_id user_id note :=
    fun step_id user_id note heq ↦ he ⟨step_id, user_id, note, heq⟩
  have hmove := move_of_step h
  have hinv := hS.inv.move (respects_bookkeeping _ _) hmove
  refine ⟨hinv, hS.keyed.move hinv hmove, hS.registered.move hS.inv hmove, fun x' hx' id hid ↦ ?_,
    fun s hs hW ↦ ?_⟩
  · obtain ⟨x, hx, hids⟩ := step_ids_of_step h he x' hx'
    have hlaunched := hS.launched x hx id (hids ▸ hid)
    rcases approvals_of_move hmove with happ | ⟨step_id, -, -, happ, -⟩
    · exact happ ▸ hlaunched
    · exact happ ▸ List.mem_append_left _ hlaunched
  · rcases waits_of_move hS.registered hS.inv hmove (kept_of_step h) hs hW with
      ⟨hmem, hold⟩ | ⟨⟨user_id, note, heq⟩, -⟩
    · exact hS.hands h hT hmem hold hs hW he
    · exact absurd heq (he s.id user_id note)

theorem Safe.created (org_id : ℕ) (requested : List String) (incremental : Bool)
    (prev : Option (List Text)) :
    Safe registry record settings (Orchestrator.created org_id requested incremental prev) where
  inv := Inv.created ..
  keyed _ hr := absurd hr List.not_mem_nil
  registered := ⟨fun _ h ↦ absurd h List.not_mem_nil, fun _ h ↦ absurd h List.not_mem_nil,
    fun _ h ↦ absurd h List.not_mem_nil⟩
  launched _ hx := absurd hx List.not_mem_nil
  inHands _ hs := absurd hs List.not_mem_nil

/-- **A step of the desk** keeps the invariant. -/
theorem Safe.deskStep {d d' : Desk} {e : DeskEvent} (hS : Safe registry record settings d.engine)
    (hT : Timely settings d e) (h : deskStep registry record settings d e = some d') :
    Safe registry record settings d'.engine := by
  cases e with
  | engine e =>
    obtain ⟨o', hengine, rfl⟩ := Option.map_eq_some_iff.1 h
    exact hS.step hT hengine
  | read step_id user_id note =>
    simp only [Sentrik.deskStep] at h
    split at h
    · rw [← Option.some.inj h]
      exact hS
    · cases h
  | commit k =>
    obtain ⟨r, hr, rfl⟩ := Option.map_eq_some_iff.1 h
    obtain ⟨held, picked⟩ := hT r hr
    exact hS.commit r held picked

/-- **An approved step is not lost**, in every run of either driver whose steps are all timely: when the
assessment has completed and nothing of it is going on, every step that an operator approved and that
still has this status was given to an agent. -/
theorem handed_of_completed {org_id : ℕ} {requested : List String} {incremental : Bool}
    {prev : Option (List Text)} {es : List DeskEvent} {d : Desk}
    (h : Machine.run (Sentrik.deskStep registry record settings)
      { engine := Orchestrator.created org_id requested incremental prev } es = some d)
    (hes : Machine.Along (Sentrik.deskStep registry record settings) (Timely settings)
      { engine := Orchestrator.created org_id requested incremental prev } es)
    (completed : d.engine.assessment.state = .COMPLETED)
    (executions : ∀ x ∈ d.engine.executions, x.pc = .finished) :
    ∀ s ∈ d.engine.steps, s.status = .approved → s.id ∈ d.engine.approvals → d.engine.Handed s.id := by
  have hS : Safe registry record settings d.engine :=
    Machine.inv_of_run_along (I := fun d ↦ Safe registry record settings d.engine)
      (fun hS hT hs ↦ hS.deskStep hT hs) hes h (Safe.created ..)
  intro s hs hstatus happroved
  by_contra hunhanded
  rcases hS.inHands s hs ⟨hstatus, happroved, hunhanded⟩ with ⟨x, hx, htakes⟩ | hK
  · rw [Execution.takes, executions x hx] at htakes
    cases htakes
  · exact hK.unfinished completed

end Orchestrator

/-! ### Sample runs -/

section

attribute [local instance] asciiTables

/-- An inline run in which the step of a state-changing skill is held until the bounded wait is over. -/
def expiredWait : List EngineEvent :=
  .register [{
    name := "cors.preflight"
    check_class := "cors"
    manifest := { detector := some "header_missing", state_changing := true } }] ::
  throughPolicy [sampleEndpoint] ++ [.main (.poll true)]

/-- The run has nothing to execute, and comes to its end. -/
def emptyExecution : List EngineEvent :=
  [.main (.enter 0), .main (.coordinate false)] ++ throughReport

/-- The execution of the approved step, which the deadline stops when its agent has run. -/
def stoppedExecution : List EngineEvent :=
  [.execution 0 (.begin 0), .execution 0 .dispatch] ++ runAgent 0 ++
    [.execution 0 (.deliver 0 true), .execution 0 .validated, .execution 0 .scored]

/-- Steps of the engine, seen from the desk. -/
def atDesk (es : List EngineEvent) : List DeskEvent := es.map .engine

/-- The desk of an inline run over the step of the skill. -/
def runDesk (es : List DeskEvent) : Option Desk :=
  Machine.run (deskStep builtinRegistry changingRecord {}) { engine := .created 1 ["cors"] false none } es

/-- The operator approves after the run. -/
def lateApproval : List DeskEvent :=
  atDesk (expiredWait ++ emptyExecution) ++ [.read 1 7 "ok", .commit 0] ++ atDesk stoppedExecution

/-- The step comes to an agent. -/
theorem handed_of_completed_late : ∃ d, runDesk lateApproval = some d ∧
    (d.engine.steps.map (·.status) = [.approved] ∧ d.engine.approvals = [1]) ∧
    ∀ s ∈ d.engine.steps, s.status = .approved → s.id ∈ d.engine.approvals → d.engine.Handed s.id := by
  obtain ⟨d, hd, hend, hstate, hexecutions⟩ : ∃ d, runDesk lateApproval = some d ∧
      (d.engine.steps.map (·.status) = [.approved] ∧ d.engine.approvals = [1]) ∧
      d.engine.assessment.state = .COMPLETED ∧ ∀ x ∈ d.engine.executions, x.pc = .finished := by
    unfold runDesk
    decide +kernel
  exact ⟨d, hd, hend, Orchestrator.handed_of_completed hd (by decide +kernel) hstate hexecutions⟩

/-- A step that was approved by an operator is stored and was never given to an agent, and the
assessment has completed with nothing going on. -/
def Desk.Lost (d : Desk) : Prop :=
  d.engine.assessment.state = .COMPLETED ∧ d.engine.main = none ∧ d.engine.executions = [] ∧
    d.engine.tasks = [] ∧ ∃ s ∈ d.engine.steps, d.engine.Waits s

instance (d : Desk) : Decidable d.Lost := inferInstanceAs (Decidable (_ ∧ _))

/-- A step that is approved between the end of the wait and the end of the run is lost; and so is one
that is approved after the run by a handler that has read the state before. -/
theorem approvedStep_lost :
    (∃ d, runDesk (atDesk (expiredWait ++ [.main (.enter 0), .approve 1 7 "ok"] ++
      emptyExecution.tail)) = some d ∧ d.Lost) ∧
    ∃ d, runDesk (atDesk (expiredWait ++ [.main (.enter 0)]) ++ [.read 1 7 "ok"] ++
      atDesk emptyExecution.tail ++ [.commit 0]) = some d ∧ d.Lost := by
  unfold runDesk
  decide +kernel

end

end Sentrik
