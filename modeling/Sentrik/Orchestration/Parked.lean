import Sentrik.Orchestration.StateTrace
import Sentrik.Orchestration.StepOrigins

/-!
# A parked run and the steps it waits for

In the graph the policy node parks by `interrupt` while steps are held. The node that runs again does
not ask a second time: on a resume `interrupt` returns, and the run goes on to execution whatever is
held. So everything depends on who resumes. The handlers of approvals and denials resume when nothing
is held any more; the sweep at startup resumes whatever is pending.

`SweepsDecided` excludes a sweep over a parked run that still waits. `Gate` is the invariant: whenever
the pending node is execution, or the policy node is run in answer to its interrupt, nothing is held.
-/

namespace Sentrik

/-- The phase whose entrance or inside this is. -/
def MainPc.node : MainPc → Option Node
  | .entering n | .inside n => some n
  | _ => none

/-- Whether this is the bounded wait. -/
def MainPc.waits : MainPc → Bool
  | .awaiting .. => true
  | _ => false

namespace Orchestrator

/-- No step waits for an operator. -/
def Decided (o : Orchestrator) : Prop := ∀ s ∈ o.steps, s.status ≠ .awaiting_approval

/-- No step waits for policy. -/
def Judged (o : Orchestrator) : Prop := ∀ s ∈ o.steps, s.status ≠ .planned

theorem held_step_ids_eq_nil {o : Orchestrator} : o.held_step_ids = [] ↔ o.Decided := by
  rw [held_step_ids, List.map_eq_nil_iff, List.filter_eq_nil_iff]
  exact ⟨fun h s hs hst ↦ h s hs (beq_iff_eq.2 hst), fun h s hs hst ↦ h s hs (beq_iff_eq.1 hst)⟩

/-- The startup sweep does not take up a parked run that still waits for operators. -/
def SweepsDecided (o : Orchestrator) (e : EngineEvent) : Prop :=
  e.restarts = true → o.interrupted = true → o.assessment.state ∉ TERMINAL_STATES →
    o.held_step_ids = []

instance (o : Orchestrator) (e : EngineEvent) : Decidable (SweepsDecided o e) :=
  inferInstanceAs (Decidable (_ → _))

/-- What holds while the policy node is interrupted. -/
structure Waiting (o : Orchestrator) : Prop where
  thread : o.thread = some .policy
  judged : o.Judged
  state : o.assessment.state = .POLICY_CHECK ∨ o.assessment.state = .CANCELLED
  main : ∀ m ∈ o.main, m.pc = .leaving ∨ m.pc = .cancelling ∨
    (m.pc = .entering .policy ∨ m.pc = .inside .policy) ∧ o.Decided

/-- The task is at a place of the graph, and at that of the pending node. -/
structure Placed (o : Orchestrator) (pc : MainPc) : Prop where
  node : ∀ n ∈ pc.node, o.thread = some n
  awake : pc.waits = false
  state : pc = .inside .policy → o.assessment.state = .POLICY_CHECK

/-- **The invariant.** -/
structure Gate (o : Orchestrator) : Prop where
  position : ∀ m ∈ o.main, o.Placed m.pc
  through : o.thread = some .execute → o.Decided
  waiting : o.interrupted = true → o.Waiting

variable {registry : _Registry} {record : AuthorizationRecord} {settings : Settings}
variable {o o' : Orchestrator} {m m' : Main} {n : Node}

theorem Waiting.not_planning (hW : o.Waiting) : ∀ m ∈ o.main, m.pc ≠ .inside .plan := by
  intro m hm hpc
  rcases hW.main m hm with h | h | ⟨h | h, -⟩ <;> rw [hpc] at h <;> cases h

/-- Launching an execution leaves the steps alone. -/
theorem start_approved_steps_steps (o : Orchestrator) (step_ids : List ℕ) :
    (o.start_approved_steps step_ids).steps = o.steps := by
  rw [start_approved_steps]
  split <;> rfl

/-- A task that is launched goes to the pending node; if that is interrupted, nothing is held. -/
theorem Gate.launch (hG : o.Gate) (graph : settings.use_langgraph = true) (idle : o.main = none)
    (decided : o.interrupted = true → o.Decided) : (start_assessment settings o).Gate := by
  have hmain : ¬o.main.isSome = true := by simp [idle]
  rw [start_assessment, if_neg hmain, goto, if_pos graph, if_pos graph]
  refine ⟨fun m hm ↦ ?_, fun h ↦ ?_, fun hint ↦ ?_⟩
  · cases hm
    exact ⟨fun n hn ↦ hn, rfl, fun h ↦ by cases h⟩
  · refine hG.through ?_
    cases hthread : o.thread with
    | none => rw [hthread] at h; cases h
    | some n => rw [hthread] at h; exact h
  · have hW := hG.waiting hint
    refine ⟨?_, hW.judged, hW.state, fun m hm ↦ ?_⟩
    · rw [hW.thread]
      rfl
    · cases hm
      rw [hW.thread]
      exact Or.inr (Or.inr ⟨Or.inl rfl, decided hint⟩)

/-- Steps that leave the run alone keep the gate as far as steps stay decided and judged. -/
theorem Gate.congr (hG : o.Gate) (same : SameRun o o') (decided : o.Decided → o'.Decided)
    (judged : o.Waiting → o'.Judged) : o'.Gate where
  position m hm := by
    obtain ⟨node, awake, hstate⟩ := hG.position m (same.main ▸ hm)
    exact ⟨fun n hn ↦ same.thread ▸ node n hn, awake, fun hpc ↦ same.state ▸ hstate hpc⟩
  through h := decided (hG.through (same.thread ▸ h))
  waiting hint := by
    have hW := hG.waiting (same.interrupted ▸ hint)
    refine ⟨same.thread.trans hW.thread, judged hW, by rw [same.state]; exact hW.state, fun m hm ↦ ?_⟩
    exact (hW.main m (same.main ▸ hm)).imp id (.imp id (.imp id decided))

/-- The handlers resume a parked run when nothing is held. -/
theorem Gate.resume (hG : o.Gate) (graph : settings.use_langgraph = true) :
    (_resume_if_parked settings o).Gate := by
  rw [_resume_if_parked]
  split
  · exact hG
  next hparked =>
    split
    next hheld =>
      exact hG.launch graph (by simpa using (not_or.1 hparked).1) fun _ ↦
        held_step_ids_eq_nil.1 hheld
    next => exact hG

/-- The process dies, and the sweep takes up what is pending. -/
theorem Gate.restart (hG : o.Gate) (graph : settings.use_langgraph = true)
    (hsweep : SweepsDecided o .restart) :
    (resume_incomplete_assessments settings o.crash).Gate := by
  have hcrash : o.crash.Gate :=
    ⟨fun m hm ↦ (by cases hm), hG.through, fun hint ↦
      ⟨(hG.waiting hint).thread, (hG.waiting hint).judged, (hG.waiting hint).state,
        fun m hm ↦ by cases hm⟩⟩
  rw [resume_incomplete_assessments]
  split
  · exact hcrash
  next hlive =>
    have hopen : o.assessment.state ∉ TERMINAL_STATES := fun h ↦ hlive (Or.inl h)
    split
    · exact hcrash.launch graph rfl fun hint ↦ held_step_ids_eq_nil.1 (hsweep rfl hint hopen)
    next hfresh =>
      -- nothing is pending, so nothing is interrupted
      have hthread : o.crash.thread = none := by simpa [graph] using hfresh
      have hint : o.interrupted ≠ true := fun hint ↦ by
        cases hthread.symm.trans (hG.waiting hint).thread
      refine Gate.launch ?_ graph rfl fun h ↦ absurd h hint
      exact ⟨fun m hm ↦ (by cases hm), fun h ↦ (by cases hthread.symm.trans h), fun h ↦ absurd h hint⟩

/-- The decision of an operator leaves nothing new to wait for. -/
theorem Gate.decideStep (hG : o.Gate) (id : ℕ) (status : StepStatus)
    (hstatus : status = .approved ∨ status = .denied) (note : PolicyDecision → PolicyDecision) :
    (o.decideStep id status note).Gate := by
  have hkeep : ∀ bad, (bad = .planned ∨ bad = .awaiting_approval) → (∀ s ∈ o.steps, s.status ≠ bad) →
      ∀ s ∈ (o.decideStep id status note).steps, s.status ≠ bad := by
    intro bad hbad h s hs
    obtain ⟨r, hr, rfl⟩ := List.mem_map.1 hs
    split
    · rcases hstatus with rfl | rfl <;> rcases hbad with rfl | rfl <;> exact fun h ↦ by cases h
    · exact h r hr
  exact hG.congr ⟨rfl, rfl, rfl, rfl⟩ (hkeep _ (Or.inr rfl)) fun hW ↦ hkeep _ (Or.inl rfl) hW.judged

/-- The entrance of a phase honours the cancel flag, writes the state of the phase, or fails. -/
theorem enter_state (o : Orchestrator) (m : Main) (n : Node) (now : ℤ) :
    (enter record settings o m n now).main.any (·.pc == .cancelling) = true ∨
      (enter record settings o m n now).assessment.state = n.state ∨
        (enter record settings o m n now).assessment.state = .FAILED := by
  unfold enter
  dsimp only
  split
  · exact Or.inl rfl
  cases n with
  | authorize =>
    dsimp only
    split
    · exact Or.inr (Or.inl rfl)
    · exact Or.inr (Or.inl rfl)
  | discover =>
    dsimp only
    split
    · exact Or.inr (Or.inr rfl)
    · exact Or.inr (Or.inl rfl)
  | execute | validate =>
    dsimp only
    split
    · exact Or.inr (Or.inl rfl)
    · exact Or.inr (Or.inl rfl)
  | plan | policy | score | report => exact Or.inr (Or.inl rfl)

/-! ### Where the graph is -/

/-- What a step of the run other than policy does to the position of the graph. -/
structure Moved (o o' : Orchestrator) : Prop where
  position : ∀ m ∈ o'.main, o'.Placed m.pc
  through : o'.thread = some .execute → o.thread = some .execute
  interrupted : o'.interrupted = true → o.interrupted = true

theorem Moved.of_goto {o₁ : Orchestrator} (graph : settings.use_langgraph = true)
    (interrupted : o₁.interrupted = o.interrupted) (m : Main) (hn : n ≠ .execute) :
    Moved o (goto settings o₁ m n) := by
  have hthread : (goto settings o₁ m n).thread = some n := by rw [goto, if_pos graph]
  refine ⟨fun m' hm' ↦ ?_, fun h ↦ ?_, fun h ↦ interrupted ▸ h⟩
  · obtain rfl : { m with pc := MainPc.entering n } = m' := Option.some.inj hm'
    exact ⟨fun n' hn' ↦ hthread.trans hn', rfl, fun h ↦ by cases h⟩
  · exact absurd (Option.some.inj (hthread.symm.trans h)) hn

theorem Moved.of_endPhase {o₁ : Orchestrator} (graph : settings.use_langgraph = true)
    (interrupted : o₁.interrupted = o.interrupted) (m : Main) (hn : n ≠ .execute) :
    Moved o (endPhase settings o₁ m n) := by
  rw [endPhase, if_pos graph]
  refine .of_goto graph ?_ _ hn
  rw [← interrupted, closeMain]
  cases m.client <;> rfl

theorem Moved.of_main (thread : o'.thread = o.thread) (interrupted : o'.interrupted = o.interrupted)
    (main' : o'.main = some m') (placed : o'.Placed m'.pc) : Moved o o' := by
  refine ⟨fun m hm ↦ ?_, fun h ↦ thread ▸ h, fun h ↦ interrupted ▸ h⟩
  rw [← Option.some.inj (main'.symm.trans hm)]
  exact placed

/-- The task goes to a place inside execution, or to its end. -/
theorem Moved.of_inner (thread : o'.thread = o.thread) (interrupted : o'.interrupted = o.interrupted)
    (main' : o'.main = some m') (node : m'.pc.node = none) (awake : m'.pc.waits = false) :
    Moved o o' := by
  refine .of_main thread interrupted main' ⟨fun n hn ↦ ?_, awake, fun h ↦ ?_⟩
  · rw [node] at hn
    cases hn
  · rw [h] at node
    cases node

/-- The run is where it was, or over. -/
theorem Moved.of_same (position : ∀ m ∈ o.main, o.Placed m.pc) (thread : o'.thread = o.thread)
    (interrupted : o'.interrupted = o.interrupted)
    (state : o'.assessment.state = o.assessment.state) (main : ∀ m ∈ o'.main, m ∈ o.main) :
    Moved o o' := by
  refine ⟨fun m hm ↦ ?_, fun h ↦ thread ▸ h, fun h ↦ interrupted ▸ h⟩
  obtain ⟨node, awake, hstate⟩ := position m (main m hm)
  exact ⟨fun n hn ↦ thread ▸ node n hn, awake, fun hpc ↦ state ▸ hstate hpc⟩

/-- The graph has ended. -/
theorem Moved.of_end (thread : o'.thread = none) (interrupted : o'.interrupted = false)
    (pc : ∀ m ∈ o'.main, m.pc = .leaving) : Moved o o' := by
  refine ⟨fun m hm ↦ ?_, fun h ↦ ?_, fun h ↦ ?_⟩
  · rw [pc m hm]
    exact ⟨fun n hn ↦ (by cases hn), rfl, fun h ↦ by cases h⟩
  · rw [thread] at h
    cases h
  · rw [interrupted] at h
    cases h

theorem moved_enter (graph : settings.use_langgraph = true) (thread : o.thread = some n) {now : ℤ} :
    Moved o (enter record settings o m n now) := by
  unfold enter
  dsimp only
  split
  · exact .of_inner rfl rfl rfl rfl rfl
  have hinside : ∀ {o' : Orchestrator} {m' : Main}, o'.thread = o.thread →
      o'.interrupted = o.interrupted → o'.main = some m' → m'.pc = .inside n →
      o'.assessment.state = n.state → Moved o o' := by
    intro o' m' hthread hint main' pc hstate
    refine .of_main hthread hint main' ?_
    rw [pc]
    exact ⟨fun n' hn' ↦ hthread.trans (thread.trans hn'), rfl, fun h ↦ by cases h; exact hstate⟩
  cases n with
  | authorize =>
    dsimp only
    split
    · exact .of_end rfl rfl fun m hm ↦ by cases hm
    · refine .of_goto graph ?_ _ (by decide)
      rfl
  | discover =>
    dsimp only
    split
    next h => exact absurd graph h.1
    next => exact hinside rfl rfl rfl rfl rfl
  | _ => exact hinside rfl rfl rfl rfl rfl

variable [u : UnicodeTables]

/-- A step of the run other than policy goes from one node to the next, and never to execution. -/
theorem moved_of_mainStep (graph : settings.use_langgraph = true) (main : o.main = some m)
    (position : ∀ m ∈ o.main, o.Placed m.pc) {e : MainEvent} (he : e ≠ .policy)
    (h : mainStep registry record settings o m e = some o') : Moved o o' := by
  cases e with
  | policy => exact absurd rfl he
  | enter now =>
    simp only [mainStep] at h
    split at h
    next n pc => exact Option.some.inj h ▸ moved_enter graph ((position m main).node n (by rw [pc]; rfl))
    next => cases h
  | discovered found =>
    simp only [mainStep] at h
    split at h
    · rw [← Option.some.inj h]
      exact .of_endPhase graph (sameRun_addEndpoints o found).interrupted _ (by decide)
    · cases h
  | plan multi strategy order =>
    simp only [mainStep] at h
    split at h
    · rw [← Option.some.inj h]
      unfold _phase_planning
      refine .of_goto graph ?_ _ (by decide)
      exact (sameRun_freeze o).interrupted
    · cases h
  | poll expired =>
    simp only [mainStep] at h
    split at h
    next approved pending pc =>
      -- the graph never waits
      have hawake := (position m main).awake
      rw [pc] at hawake
      cases hawake
    next => cases h
  | coordinate elects_stop =>
    simp only [mainStep] at h
    split at h
    · rw [← Option.some.inj h]
      unfold coordinate
      dsimp only
      split
      · exact .of_endPhase graph rfl _ (by decide)
      · exact .of_inner rfl rfl rfl rfl rfl
    · cases h
  | send =>
    simp only [mainStep] at h
    split at h
    · exact Option.some.inj h ▸ .of_same position rfl rfl rfl fun m hm ↦ hm
    · cases h
  | dispatch =>
    simp only [mainStep] at h
    split at h
    next steps pc =>
      obtain ⟨tasks, -, rfl⟩ := Option.map_eq_some_iff.1 h
      exact .of_inner (sameRun_freeze o).thread (sameRun_freeze o).interrupted rfl rfl rfl
    next => cases h
  | deliver i noticed =>
    simp only [mainStep] at h
    split at h
    next pool errored pc =>
      obtain ⟨⟨t, error⟩, -, rfl⟩ := Option.map_eq_some_iff.1 h
      dsimp only
      split
      · exact .of_endPhase graph (by cases m.client <;> rfl) _ (by decide)
      · exact .of_inner rfl rfl rfl rfl rfl
    next iteration pool pc =>
      obtain ⟨⟨t, error⟩, -, rfl⟩ := Option.map_eq_some_iff.1 h
      dsimp only
      split
      · exact .of_inner rfl rfl rfl rfl rfl
      · exact .of_same position rfl rfl rfl fun m hm ↦ hm
    next => cases h
  | drained =>
    simp only [mainStep] at h
    split at h
    · split at h
      · exact Option.some.inj h ▸ .of_inner rfl rfl rfl rfl rfl
      · cases h
    · split at h
      · exact Option.some.inj h ▸ .of_inner rfl rfl rfl rfl rfl
      · cases h
    · cases h
  | retry noticed =>
    simp only [mainStep] at h
    split at h
    next attempt queue errored pc =>
      unfold retry at h
      split at h
      next i rest =>
        obtain ⟨t, -, rfl⟩ := Option.map_eq_some_iff.1 h
        exact .of_inner rfl rfl rfl rfl rfl
      next =>
        split at h
        · exact Option.some.inj h ▸ .of_inner rfl rfl rfl rfl rfl
        · exact Option.some.inj h ▸ .of_inner rfl rfl rfl rfl rfl
    next => cases h
  | retried =>
    simp only [mainStep] at h
    split at h
    next attempt i queue errored pc =>
      rw [retried] at h
      split at h
      next t task =>
        split at h
        · exact Option.some.inj h ▸ .of_inner rfl rfl rfl rfl rfl
        · cases h
      next => cases h
    next => cases h
  | replan answer =>
    simp only [mainStep] at h
    split at h
    next iteration pc =>
      rw [_maybe_replan] at h
      split at h
      · cases h
      · split at h
        · exact Option.some.inj h ▸ .of_endPhase graph rfl _ (by decide)
        · obtain ⟨tasks, -, rfl⟩ := Option.map_eq_some_iff.1 h
          exact .of_inner rfl rfl rfl rfl rfl
    next => cases h
  | validated =>
    simp only [mainStep] at h
    split at h
    · exact Option.some.inj h ▸ .of_endPhase graph rfl _ (by decide)
    · cases h
  | scored =>
    simp only [mainStep] at h
    split at h
    · exact Option.some.inj h ▸ .of_goto graph (sameRun_phase_score o).interrupted _ (by decide)
    · cases h
  | reported =>
    simp only [mainStep] at h
    split at h
    · exact Option.some.inj h ▸ .of_end rfl rfl fun m hm ↦ by cases hm; rfl
    · cases h
  | raise error =>
    simp only [mainStep] at h
    split at h
    · cases h
    · rw [← Option.some.inj h, raise, if_pos graph]
      exact .of_end rfl rfl fun m hm ↦ by cases hm
  | cancelled =>
    simp only [mainStep] at h
    split at h
    · exact Option.some.inj h ▸ .of_end rfl rfl fun m hm ↦ by cases hm; rfl
    · cases h
  | leave =>
    simp only [mainStep] at h
    split at h
    · rw [← Option.some.inj h]
      obtain ⟨thread, interrupted, state⟩ : (o.closeMain m).idle.thread = o.thread ∧
          (o.closeMain m).idle.interrupted = o.interrupted ∧
            (o.closeMain m).idle.assessment.state = o.assessment.state := by
        rw [closeMain]
        cases m.client <;> exact ⟨rfl, rfl, rfl⟩
      exact .of_same position thread interrupted state fun m hm ↦ by cases hm
    · cases h

/-! ### What is decided stays decided -/

theorem judge_status_ne_planned (guard : ScopeGuard) (declaratives : List DeclarativeCheck)
    (s : PlanStep) : (judge registry guard settings declaratives s).status ≠ .planned := by
  intro h
  nomatch h ▸ verdict_judge registry guard settings declaratives s

/-- Only policy makes steps wait. -/
theorem Decided.step {e : EngineEvent} (hD : o.Decided) (he : e ≠ .main .policy)
    (h : step registry record settings o e = some o') : o'.Decided := by
  intro s hs hst
  cases origin_of_step h hs with
  | kept mem => exact hD s mem hst
  | planned main pc fresh status => rw [status] at hst; cases hst
  | gap fresh status => rw [status] at hst; cases hst
  | judged policy => exact he policy
  | @settled _ _ error => cases error <;> cases hst
  | skipped | approved | denied => cases hst

/-- Only planning creates steps that wait for policy. -/
theorem Judged.step {e : EngineEvent} (hJ : o.Judged) (hpc : ∀ m ∈ o.main, m.pc ≠ .inside .plan)
    (h : step registry record settings o e = some o') : o'.Judged := by
  intro s hs hst
  cases origin_of_step h hs with
  | kept mem => exact hJ s mem hst
  | planned main pc => exact hpc _ main pc
  | gap fresh status => rw [status] at hst; cases hst
  | judged => exact judge_status_ne_planned _ _ _ hst
  | @settled _ _ error => cases error <;> cases hst
  | skipped | approved | denied => cases hst

/-! ### The gate is kept -/

/-- While the node is interrupted, the run honours the cancel flag, fails, or answers the interrupt. -/
theorem Waiting.mainStep (hW : o.Waiting) (graph : settings.use_langgraph = true)
    (main : o.main = some m) {e : MainEvent} (he : e ≠ .policy)
    (h : mainStep registry record settings o m e = some o') (hstill : o'.interrupted = true) :
    o'.Waiting := by
  have hraise : ∀ {error}, (raise settings o m error).interrupted = false := fun {error} ↦ by
    rw [raise, if_pos graph]
    rfl
  rcases hW.main m main with pc | pc | ⟨pc | pc, hD⟩
  · -- about to leave
    cases e with
    | leave =>
      simp only [Orchestrator.mainStep, pc, ↓reduceIte, Option.some.injEq] at h
      obtain ⟨hsame, hthread, hsteps⟩ : (o.closeMain m).idle.assessment = o.assessment ∧
          (o.closeMain m).idle.thread = o.thread ∧ (o.closeMain m).idle.steps = o.steps := by
        rw [closeMain]
        cases m.client <;> exact ⟨rfl, rfl, rfl⟩
      rw [← h]
      refine ⟨hthread.trans hW.thread, fun s hs ↦ hW.judged s (hsteps ▸ hs), ?_, fun m hm ↦ by cases hm⟩
      rw [hsame]
      exact hW.state
    | _ => simp [Orchestrator.mainStep, pc, MainPc.sends] at h
  · -- about to be cancelled
    cases e with
    | cancelled =>
      simp only [Orchestrator.mainStep, pc, ↓reduceIte, Option.some.injEq] at h
      rw [← h] at hstill
      cases hstill
    | raise error =>
      simp only [Orchestrator.mainStep, pc, reduceCtorEq, ↓reduceIte, Option.some.injEq] at h
      rw [← h, hraise] at hstill
      cases hstill
    | _ => simp [Orchestrator.mainStep, pc, MainPc.sends] at h
  · -- the policy node runs again
    cases e with
    | enter now =>
      simp only [Orchestrator.mainStep, pc, Option.some.injEq] at h
      rw [← h]
      unfold enter
      dsimp only
      split
      · exact ⟨hW.thread, hW.judged, hW.state, fun m' hm' ↦ by cases hm'; exact Or.inr (Or.inl rfl)⟩
      · exact ⟨hW.thread, hW.judged, Or.inl rfl,
          fun m' hm' ↦ by cases hm'; exact Or.inr (Or.inr ⟨Or.inr rfl, hD⟩)⟩
    | raise error =>
      simp only [Orchestrator.mainStep, pc, reduceCtorEq, ↓reduceIte, Option.some.injEq] at h
      rw [← h, hraise] at hstill
      cases hstill
    | _ => simp [Orchestrator.mainStep, pc, MainPc.sends] at h
  · -- and has re-checked everything
    cases e with
    | policy => exact absurd rfl he
    | raise error =>
      simp only [Orchestrator.mainStep, pc, reduceCtorEq, ↓reduceIte, Option.some.injEq] at h
      rw [← h, hraise] at hstill
      cases hstill
    | _ => simp [Orchestrator.mainStep, pc, MainPc.sends] at h

/-- **Policy** parks while steps are held, unless it answers its interrupt, when nothing is held. -/
theorem Gate.policy (hG : o.Gate) (graph : settings.use_langgraph = true) (main : o.main = some m)
    (pc : m.pc = .inside .policy) : (_phase_policy registry record settings o m).Gate := by
  have hthread : o.thread = some .policy := (hG.position m main).node _ (by rw [pc]; rfl)
  have hstate : o.assessment.state = .POLICY_CHECK := (hG.position m main).state pc
  have hreview : underReview settings o m = (o.steps.filter (·.status == .planned)).map (·.id) := by
    rw [underReview, if_pos graph]
  set ids := underReview settings o m with hids
  set o₁ := (judgeAll registry record settings o ids).freeze with ho₁
  have hrun : SameRun o o₁ := by
    refine SameRun.trans ?_ (sameRun_freeze (judgeAll registry record settings o ids))
    exact ⟨rfl, rfl, rfl, rfl⟩
  have hsteps : o₁.steps = (judgeAll registry record settings o ids).steps := by rw [ho₁, freeze_eq]
  have hjudged : o₁.Judged := by
    intro s hs hst
    rw [hsteps] at hs
    obtain ⟨r, hr, rfl⟩ := List.mem_map.1 hs
    split at hst
    · exact judge_status_ne_planned _ _ _ hst
    next hid =>
      refine hid ?_
      rw [hreview]
      exact List.mem_map.2 ⟨r, List.mem_filter.2 ⟨hr, beq_iff_eq.2 hst⟩, rfl⟩
  -- a node that answers its interrupt has nothing to judge
  have hanswers : o.interrupted = true → o₁.Decided := by
    intro hint
    have hW := hG.waiting hint
    have hD : o.Decided := by
      rcases hW.main m main with h | h | ⟨-, hD⟩
      · rw [pc] at h; cases h
      · rw [pc] at h; cases h
      · exact hD
    have hnil : ids = [] := by
      rw [hreview, List.map_eq_nil_iff, List.filter_eq_nil_iff]
      exact fun s hs hst ↦ hW.judged s hs (beq_iff_eq.1 hst)
    intro s hs
    rw [hsteps, hnil, judgeAll] at hs
    obtain ⟨r, hr, rfl⟩ := List.mem_map.1 hs
    rw [if_neg List.not_mem_nil]
    exact hD r hr
  unfold _phase_policy
  dsimp only
  rw [if_pos graph]
  split
  next hgo =>
    have hD : o₁.Decided := by
      rcases hgo with hheld | hint
      · exact held_step_ids_eq_nil.1 hheld
      · exact hanswers (hrun.interrupted ▸ hint)
    refine ⟨fun m' hm' ↦ ?_, fun _ ↦ hD, fun hint ↦ by cases hint⟩
    cases hm'
    exact ⟨fun n hn ↦ (if_pos graph).trans hn, rfl, fun h ↦ by cases h⟩
  next hgo =>
    refine ⟨fun m' hm' ↦ ?_, fun h ↦ ?_, fun _ ↦ ⟨hrun.thread.trans hthread, hjudged,
      Or.inl (hrun.state.trans hstate), fun m' hm' ↦ by cases hm'; exact Or.inl rfl⟩⟩
    · cases hm'
      exact ⟨fun n hn ↦ (by cases hn), rfl, fun h ↦ by cases h⟩
    · have hexecute := (hrun.thread.trans hthread).symm.trans h
      cases hexecute

/-- **A step that sweeps over decided runs only keeps the gate.** -/
theorem Gate.step {e : EngineEvent} (hG : o.Gate) (graph : settings.use_langgraph = true)
    (hsweep : SweepsDecided o e) (h : step registry record settings o e = some o') : o'.Gate := by
  have hquiet : e ≠ .main .policy → SameRun o o' → o'.Gate := fun he same ↦
    hG.congr same (·.step he h) fun hW ↦ hW.judged.step hW.not_planning h
  cases e with
  | main e =>
    obtain ⟨m, main, hmain⟩ := Option.bind_eq_some_iff.1 h
    by_cases he : e = .policy
    · subst he
      simp only [Orchestrator.mainStep] at hmain
      split at hmain
      next pc => exact Option.some.inj hmain ▸ hG.policy graph main pc
      next => cases hmain
    · have hmoved := moved_of_mainStep graph main hG.position he hmain
      have hne : EngineEvent.main e ≠ .main .policy := fun h ↦ he (EngineEvent.main.inj h)
      exact ⟨hmoved.position, fun hexecute ↦ (hG.through (hmoved.through hexecute)).step hne h,
        fun hint ↦ (hG.waiting (hmoved.interrupted hint)).mainStep graph main he hmain hint⟩
  | execution j e =>
    obtain ⟨x, -, hexec⟩ := Option.bind_eq_some_iff.1 h
    exact hquiet (fun h ↦ by cases h) (sameRun_executionStep hexec)
  | task i e =>
    obtain ⟨t, -, htask⟩ := Option.bind_eq_some_iff.1 h
    exact hquiet (fun h ↦ by cases h) (sameRun_taskStep htask)
  | restart => exact Option.some.inj h ▸ hG.restart graph hsweep
  | start reset =>
    by_cases live : o.main.isSome = true
    · exact hquiet (fun h ↦ by cases h) (sameRun_of_live live (fun _ h ↦ by cases h) (by simp) h)
    have idle : o.main = none := by simpa using live
    rw [← Option.some.inj h, start]
    split
    next hstate =>
      have hint : o.interrupted ≠ true := fun hint ↦ by
        rcases (hG.waiting hint).state with h | h <;> rw [h] at hstate <;> simp at hstate
      refine Gate.launch ?_ graph ?_ fun h ↦ absurd ?_ hint
      · cases reset
        · exact hG
        · exact hG.congr ⟨rfl, rfl, rfl, rfl⟩ id fun hW ↦ hW.judged
      · cases reset <;> exact idle
      · cases reset <;> exact h
    next => exact hG
  | cancel =>
    by_cases live : o.main.isSome = true
    · exact hquiet (fun h ↦ by cases h) (sameRun_of_live live (fun _ h ↦ by cases h) (by simp) h)
    have idle : o.main = none := by simpa using live
    rw [← Option.some.inj h, cancel]
    dsimp only
    rw [if_neg live]
    split
    · exact hG
    · exact ⟨fun m hm ↦ (by cases idle.symm.trans hm), hG.through, fun hint ↦
        ⟨(hG.waiting hint).thread, (hG.waiting hint).judged, Or.inr rfl,
          fun m hm ↦ by cases idle.symm.trans hm⟩⟩
  | cancel_all =>
    rw [← Option.some.inj h, cancel_all]
    split
    · exact hG
    · exact hG.congr ⟨rfl, rfl, rfl, rfl⟩ id fun hW ↦ hW.judged
  | approve step_id user_id note =>
    rw [← Option.some.inj h, approve_step]
    dsimp only
    split
    next =>
      have hdecided := hG.decideStep step_id .approved (Or.inl rfl) fun d ↦
        { d with approved_by := some user_id, approval_note := some note }
      have hrecorded : Gate { o.decideStep step_id .approved fun d ↦
          { d with approved_by := some user_id, approval_note := some note } with
            approvals := o.approvals ++ [step_id] } :=
        hdecided.congr ⟨rfl, rfl, rfl, rfl⟩ id fun hW ↦ hW.judged
      split
      · refine hrecorded.congr (sameRun_start_approved_steps _ _) (fun hD s hs ↦ hD s ?_)
          fun hW s hs ↦ hW.judged s ?_
        · rwa [start_approved_steps_steps] at hs
        · rwa [start_approved_steps_steps] at hs
      · exact hrecorded.resume graph
    next => exact hG
  | deny step_id user_id note =>
    rw [← Option.some.inj h, deny_step]
    dsimp only
    split
    next =>
      have hdecided := hG.decideStep step_id .denied (Or.inr rfl) fun d ↦
        { d with denied_by := some user_id, denial_note := some note }
      refine Gate.resume ?_ graph
      exact hdecided.congr ⟨rfl, rfl, rfl, rfl⟩ id fun hW ↦ hW.judged
    next => exact hG
  | triage => exact Option.some.inj h ▸ hG
  | ingest found =>
    exact hquiet (fun h ↦ by cases h) (Option.some.inj h ▸ sameRun_addEndpoints o found)
  | register skills =>
    exact hquiet (fun h ↦ by cases h) (Option.some.inj h ▸ ⟨rfl, rfl, rfl, rfl⟩)

/-- `EXECUTING` is written at the entrance of execution only. -/
theorem entering_of_writes {e : EngineEvent} (h : step registry record settings o e = some o')
    (hwrites : .EXECUTING ∈ writes o e o') :
    e ≠ .main .policy ∧ ∃ m, o.main = some m ∧ m.pc = .entering .execute := by
  unfold writes at hwrites
  split at hwrites
  next now =>
    refine ⟨fun h ↦ (by cases h), ?_⟩
    obtain ⟨m, main, hmain⟩ := Option.bind_eq_some_iff.1 h
    refine ⟨m, main, ?_⟩
    simp only [Orchestrator.mainStep] at hmain
    split at hmain
    next n pc =>
      rw [← Option.some.inj hmain] at hwrites
      split at hwrites
      next => cases hwrites
      next hgo =>
        rcases enter_state o m n now with hcancel | hstate | hstate
        · exact absurd hcancel hgo
        · have hn : AssessmentState.EXECUTING = n.state :=
            (List.mem_singleton.1 hwrites).trans hstate
          cases n with
          | execute => exact pc
          | _ => cases hn
        · cases (List.mem_singleton.1 hwrites).trans hstate
    next => cases hmain
  next =>
    obtain ⟨m, -, hmain⟩ := Option.bind_eq_some_iff.1 h
    simp only [Orchestrator.mainStep] at hmain
    split at hmain
    · rw [← Option.some.inj hmain] at hwrites
      cases List.mem_singleton.1 hwrites
    · cases hmain
  next =>
    obtain ⟨m, -, hmain⟩ := Option.bind_eq_some_iff.1 h
    simp only [Orchestrator.mainStep] at hmain
    split at hmain
    · rw [← Option.some.inj hmain] at hwrites
      cases List.mem_singleton.1 hwrites
    · cases hmain
  next error =>
    obtain ⟨m, -, hmain⟩ := Option.bind_eq_some_iff.1 h
    simp only [Orchestrator.mainStep] at hmain
    split at hmain
    · cases hmain
    · rw [← Option.some.inj hmain] at hwrites
      unfold raise at hwrites
      split at hwrites <;> cases List.mem_singleton.1 hwrites
  next => cases hwrites

/-- **A parked run does not execute while approvals are pending**, in every run of the graph in which
the startup sweep takes up decided runs only. -/
theorem held_of_executing {org_id : ℕ} {requested : List String} {incremental : Bool}
    {prev : Option (List Text)} {es : List EngineEvent} {e : EngineEvent} {o o' : Orchestrator}
    (graph : settings.use_langgraph = true)
    (hes : Machine.Along (step registry record settings) SweepsDecided
      (created org_id requested incremental prev) es)
    (h : Machine.run (step registry record settings) (created org_id requested incremental prev) es =
      some o) (hstep : step registry record settings o e = some o')
    (hwrites : .EXECUTING ∈ writes o e o') : o.held_step_ids = [] ∧ o'.held_step_ids = [] := by
  have hG : o.Gate := Machine.inv_of_run_along (fun hG hsweep hs ↦ hG.step graph hsweep hs) hes h
    ⟨fun m hm ↦ (by cases hm), fun h ↦ (by cases h), fun h ↦ by cases h⟩
  obtain ⟨he, m, main, pc⟩ := entering_of_writes hstep hwrites
  have hD : o.Decided := hG.through ((hG.position m main).node _ (by rw [pc]; rfl))
  exact ⟨held_step_ids_eq_nil.2 hD, held_step_ids_eq_nil.2 (hD.step he hstep)⟩

end Orchestrator

section

attribute [local instance] asciiTables

/-- A run of the graph that has parked on the step of a state-changing skill. -/
def parkedRun : List EngineEvent :=
  .register [{
    name := "cors.preflight"
    check_class := "cors"
    manifest := { detector := some "header_missing", state_changing := true } }] ::
  throughPolicy [sampleEndpoint] ++ [.main .leave]

/-- The operator approves the step, and the run goes on. -/
theorem held_of_executing_approved :
    ∃ o, Machine.run (Orchestrator.step builtinRegistry changingRecord { use_langgraph := true })
        (.created 1 ["cors"] false none)
        (parkedRun ++ [.approve 1 7 "ok", .main (.enter 0), .main .policy]) = some o ∧
      ∃ o', Orchestrator.step builtinRegistry changingRecord { use_langgraph := true } o
          (.main (.enter 0)) = some o' ∧ .EXECUTING ∈ o.writes (.main (.enter 0)) o' ∧
        o.held_step_ids = [] ∧ o'.held_step_ids = [] := by
  obtain ⟨o, ho, hnext⟩ : ∃ o, Machine.run
      (Orchestrator.step builtinRegistry changingRecord { use_langgraph := true })
      (.created 1 ["cors"] false none)
      (parkedRun ++ [.approve 1 7 "ok", .main (.enter 0), .main .policy]) = some o ∧
      ∃ o', Machine.run (Orchestrator.step builtinRegistry changingRecord { use_langgraph := true }) o
        [.main (.enter 0)] = some o' ∧ .EXECUTING ∈ o.writes (.main (.enter 0)) o' := by
    decide +kernel
  obtain ⟨o', hrun, hwrites⟩ := hnext
  obtain ⟨o₁, hstep, hnil⟩ := Option.bind_eq_some_iff.1 hrun
  obtain rfl := Option.some.inj hnil
  exact ⟨o, ho, o₁, hstep, hwrites,
    Orchestrator.held_of_executing rfl (by decide +kernel) ho hstep hwrites⟩

/-- The server restarts while the step is held: the sweep resumes the run, which executes. -/
theorem sweptRun_executes :
    ∃ o, Machine.run (Orchestrator.step builtinRegistry changingRecord { use_langgraph := true })
        (.created 1 ["cors"] false none)
        (parkedRun ++ [.restart, .main (.enter 0), .main .policy, .main (.enter 0)]) = some o ∧
      o.assessment.state = .EXECUTING ∧ o.held_step_ids = [1] := by
  decide +kernel

end

end Sentrik
