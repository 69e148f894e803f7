import Sentrik.Orchestration.Moves

/-!
# The states a run writes

A run goes through the phases in order, each of which writes its state when it is entered, and ends by
writing one terminal state; a run of the graph may park in the policy phase instead. The task of the
run writes at four places only: at the entrance of a phase, after the report, when it honours the
cancel flag, and when it fails. `Orchestrator.writes` notes them, and `Law` is what the notes of a run
look like.

**One exit writes nothing.** The authorize node of the graph answers a denied precheck with a status,
the graph ends on it, and nobody writes `FAILED`. `PersistsFailure` excludes this exit. The inline
driver marks the run failed at the same place.
-/

namespace Sentrik

/-- The states of the phases. -/
def Node.state : Node → AssessmentState
  | authorize => .AUTHORIZED
  | discover => .DISCOVERING
  | plan => .PLANNING
  | policy => .POLICY_CHECK
  | execute => .EXECUTING
  | validate => .VALIDATING
  | score => .SCORING
  | report => .REPORTING

/-- The phases in order. -/
def Node.all : List Node :=
  [authorize, discover, plan, policy, execute, validate, score, report]

/-- How many phases come before this one. -/
def Node.index (n : Node) : ℕ := Node.all.idxOf n

/-- The states of the phases in order. -/
def PHASES : List AssessmentState := Node.all.map (·.state)

theorem take_index_succ (n : Node) :
    PHASES.take n.index ++ [n.state] = PHASES.take (n.index + 1) := by
  cases n <;> rfl

/-- How many phases have been entered when the task is here, unless the run is about to end. -/
def MainPc.reached : MainPc → Option ℕ
  | .entering n => some n.index
  | .inside n => some (n.index + 1)
  | .awaiting .. => some (Node.policy.index + 1)
  | .loggingIn _ | .streaming .. | .retrying .. | .replanning _ | .replanStreaming .. =>
    some (Node.execute.index + 1)
  | .cancelling | .leaving => none

/-- A prefix of the phases and then one terminal state, which is `COMPLETED` after all phases only. -/
def Lawful (states : List AssessmentState) : Prop :=
  ∃ n, ∃ last ∈ TERMINAL_STATES, states = PHASES.take n ++ [last] ∧
    (last = .COMPLETED → PHASES.length ≤ n)

namespace EngineEvent

/-- Whether the process dies. -/
def restarts : EngineEvent → Bool
  | restart => true
  | _ => false

/-- The clock when the run is at the entrance of a phase. -/
def entrance : EngineEvent → Option ℤ
  | main (.enter now) => some now
  | _ => none

end EngineEvent

namespace Orchestrator

/-- The state that the task of the run writes in a step. -/
def writes (_ : Orchestrator) (e : EngineEvent) (o' : Orchestrator) : List AssessmentState :=
  match e with
  | .main (.enter _) => if o'.main.any (·.pc == .cancelling) then [] else [o'.assessment.state]
  | .main .reported | .main .cancelled | .main (.raise _) => [o'.assessment.state]
  | _ => []

/-- **The law** of the states written so far. -/
inductive Law (o : Orchestrator) (states : List AssessmentState) : Prop
  /-- The run goes on, and has written the states of the first phases. -/
  | going (live : o.main.isSome = true) (n : ℕ) (upTo : states = PHASES.take n)
  /-- A terminal state is written, and the assessment is in it. -/
  | finished (lawful : Lawful states) (last : states.getLast? = some o.assessment.state)
  /-- The run has parked in the policy phase. -/
  | parked (interrupted : o.interrupted = true) (state : o.assessment.state = .POLICY_CHECK)
    (upTo : states = PHASES.take (Node.policy.index + 1))

/-- The process does not crash, and the task of the run is live. -/
def Uninterrupted (o : Orchestrator) (e : EngineEvent) : Prop :=
  o.main.isSome = true ∧ e.restarts = false

/-- The authorize node of the graph is not denied, unless it is not run because of the cancel flag. -/
def PersistsFailure (record : AuthorizationRecord) (settings : Settings) (o : Orchestrator)
    (e : EngineEvent) : Prop :=
  ∀ now ∈ e.entrance, settings.use_langgraph = true →
    (∀ m ∈ o.main, m.pc = .entering .authorize) → o.assessment.cancel_requested = false →
      ((_make_guard record settings).check_record_active now).allowed = true

instance (o : Orchestrator) (e : EngineEvent) : Decidable (Uninterrupted o e) :=
  inferInstanceAs (Decidable (_ ∧ _))

instance (record : AuthorizationRecord) (settings : Settings) (o : Orchestrator) (e : EngineEvent) :
    Decidable (PersistsFailure record settings o e) :=
  inferInstanceAs (Decidable (∀ now ∈ e.entrance, _))

variable {registry : _Registry} {record : AuthorizationRecord} {settings : Settings}
variable {o o' : Orchestrator} {m m' : Main} {states : List AssessmentState} {k : ℕ} {n : Node}

/-- A run that is over has parked, or left the assessment in a terminal state. -/
theorem Law.terminal (hL : Law o states) (ended : o.main = none) :
    o.assessment.state ∈ TERMINAL_STATES ∨
      o.interrupted = true ∧ o.assessment.state = .POLICY_CHECK := by
  cases hL with
  | going live =>
    rw [ended] at live
    cases live
  | finished lawful last =>
    obtain ⟨k, state, hterminal, rfl, -⟩ := lawful
    rw [List.getLast?_concat] at last
    exact Or.inl (Option.some.inj last ▸ hterminal)
  | parked interrupted state => exact Or.inr ⟨interrupted, state⟩

/-! ### The invariant -/

/-- What has been written when the task is about to end. -/
inductive Ended (o : Orchestrator) (states : List AssessmentState) : Prop
  | finished (lawful : Lawful states)
  | parked (interrupted : o.interrupted = true)
    (upTo : states = PHASES.take (Node.policy.index + 1))

/-- **The invariant**: the assessment is in the state written last, and the place of the task says what
has been written. -/
structure TraceInv (o : Orchestrator) (states : List AssessmentState) : Prop where
  last : ∀ state ∈ states.getLast?, o.assessment.state = state
  going : ∀ m ∈ o.main, ∀ k ∈ m.pc.reached, states = PHASES.take k
  cancelling : ∀ m ∈ o.main, m.pc = .cancelling → ∃ k, states = PHASES.take k
  ended : (∀ m ∈ o.main, m.pc = .leaving) → Ended o states

/-- The invariant is enough for the law. -/
theorem TraceInv.law (hT : TraceInv o states) : Law o states := by
  have hended : Ended o states → Law o states := fun h ↦ by
    cases h with
    | finished lawful =>
      obtain ⟨k, last, -, rfl, -⟩ := id lawful
      refine .finished lawful ?_
      rw [List.getLast?_concat, hT.last last (by simp)]
    | parked interrupted upTo =>
      exact .parked interrupted (hT.last _ (by rw [upTo]; rfl)) upTo
  cases hmain : o.main with
  | none => exact hended (hT.ended fun m hm ↦ by rw [hmain] at hm; cases hm)
  | some m =>
    have live : o.main.isSome = true := by rw [hmain]; rfl
    cases hreached : m.pc.reached with
    | some k => exact .going live k (hT.going m hmain k hreached)
    | none =>
      by_cases hpc : m.pc = .cancelling
      · obtain ⟨k, hk⟩ := hT.cancelling m hmain hpc
        exact .going live k hk
      · refine hended (hT.ended fun m' hm' ↦ ?_)
        rw [← Option.some.inj (hmain.symm.trans hm')]
        cases h : m.pc <;> simp_all [MainPc.reached]

theorem TraceInv.congr (hT : TraceInv o states) (h : SameRun o o') : TraceInv o' states := by
  refine ⟨h.state ▸ hT.last, h.main ▸ hT.going, h.main ▸ hT.cancelling, fun hleaving ↦ ?_⟩
  cases hT.ended (h.main ▸ hleaving) with
  | finished lawful => exact .finished lawful
  | parked interrupted upTo => exact .parked (h.interrupted.trans interrupted) upTo

/-- The task goes to a place up to which these states have been written. -/
theorem TraceInv.of_reached (last : ∀ state ∈ states.getLast?, o'.assessment.state = state)
    (main' : o'.main = some m') (reached : m'.pc.reached = some k)
    (upTo : states = PHASES.take k) : TraceInv o' states := by
  refine ⟨last, fun m hm j hj ↦ ?_, fun m hm hpc ↦ ?_, fun hleaving ↦ ?_⟩
  · rw [← Option.some.inj (main'.symm.trans hm), reached] at hj
    rw [← Option.some.inj hj]
    exact upTo
  · rw [← Option.some.inj (main'.symm.trans hm)] at hpc
    rw [hpc] at reached
    cases reached
  · rw [hleaving m' main'] at reached
    cases reached

theorem TraceInv.of_ended (last : ∀ state ∈ states.getLast?, o'.assessment.state = state)
    (leaving : ∀ m ∈ o'.main, m.pc = .leaving) (h : Ended o' states) : TraceInv o' states := by
  refine ⟨last, fun m hm j hj ↦ ?_, fun m hm hpc ↦ ?_, fun _ ↦ h⟩
  · rw [leaving m hm] at hj
    cases hj
  · rw [leaving m hm] at hpc
    cases hpc

theorem TraceInv.of_cancelling (last : ∀ state ∈ states.getLast?, o'.assessment.state = state)
    (main' : o'.main = some m') (pc : m'.pc = .cancelling) (upTo : states = PHASES.take k) :
    TraceInv o' states := by
  refine ⟨last, fun m hm j hj ↦ ?_, fun _ _ _ ↦ ⟨k, upTo⟩, fun hleaving ↦ ?_⟩
  · rw [← Option.some.inj (main'.symm.trans hm), pc] at hj
    cases hj
  · have hleaves := hleaving m' main'
    rw [pc] at hleaves
    cases hleaves

theorem last_of_append (state : AssessmentState) :
    ∀ s ∈ (states ++ [state]).getLast?, state = s := by
  intro s hs
  rw [List.getLast?_concat] at hs
  exact Option.some.inj hs

/-- A phase is entered. -/
theorem TraceInv.of_entered (main' : o'.main = some m') (reached : m'.pc.reached = some (n.index + 1))
    (state : o'.assessment.state = n.state) (upTo : states = PHASES.take n.index) :
    TraceInv o' (states ++ [o'.assessment.state]) := by
  refine .of_reached (last_of_append _) main' reached ?_
  rw [upTo, state, take_index_succ]

/-- The run ends early. -/
theorem TraceInv.of_last {last : AssessmentState} (leaving : ∀ m ∈ o'.main, m.pc = .leaving)
    (hlast : last = .FAILED ∨ last = .CANCELLED) (state : o'.assessment.state = last)
    (upTo : states = PHASES.take k) : TraceInv o' (states ++ [o'.assessment.state]) := by
  refine .of_ended (last_of_append _) leaving (.finished ⟨k, last, ?_, by rw [upTo, state], ?_⟩)
  · rcases hlast with rfl | rfl <;> decide
  · rcases hlast with rfl | rfl <;> exact fun h ↦ by cases h

/-- The next phase is next. -/
theorem endPhase_main (o : Orchestrator) (m : Main) (next : Node) :
    (endPhase settings o m next).assessment = o.assessment ∧
      ∃ m', (endPhase settings o m next).main = some m' ∧ m'.pc = .entering next := by
  rw [endPhase]
  split
  · refine ⟨?_, _, rfl, rfl⟩
    rw [closeMain]
    cases m.client <;> rfl
  · exact ⟨rfl, _, rfl, rfl⟩

theorem TraceInv.of_endPhase {o₁ : Orchestrator} (hT : TraceInv o states)
    (state : o₁.assessment.state = o.assessment.state) (m : Main) (next : Node)
    (upTo : states = PHASES.take next.index) : TraceInv (endPhase settings o₁ m next) states := by
  obtain ⟨same, m', main', pc⟩ := @endPhase_main settings o₁ m next
  refine .of_reached ?_ main' (by rw [pc]; rfl) upTo
  rw [same, state]
  exact hT.last

/-- **Entering a phase** writes its state, unless the cancel flag is seen or the run fails. -/
theorem TraceInv.enter (hT : TraceInv o states) (main : o.main = some m) (pc : m.pc = .entering n)
    {now : ℤ} (hpersists : PersistsFailure record settings o (.main (.enter now))) :
    TraceInv (enter record settings o m n now)
      (states ++ writes o (.main (.enter now)) (Orchestrator.enter record settings o m n now)) := by
  have upTo : states = PHASES.take n.index := hT.going m main _ (by rw [pc]; rfl)
  unfold Orchestrator.enter
  dsimp only
  split
  · -- the flag is honoured, and nothing is written yet
    rw [writes, setMain, Option.any_some, if_pos (by rfl), List.append_nil]
    exact .of_cancelling hT.last rfl rfl upTo
  next hgo =>
  cases n with
  | authorize =>
    dsimp only
    split
    next hdenied =>
      -- the exit that the condition excludes
      refine absurd (hpersists now rfl hdenied.1 (fun m' hm' ↦ ?_) ?_) hdenied.2
      · rw [← Option.some.inj (main.symm.trans hm'), pc]
      · simpa [Node.checksCancel, hdenied.1] using hgo
    next => exact .of_reached (last_of_append _) rfl rfl (by rw [upTo]; rfl)
  | discover =>
    dsimp only
    split
    · exact .of_last (fun m hm ↦ by cases hm; rfl) (Or.inl rfl) rfl upTo
    · exact .of_entered rfl rfl rfl upTo
  | plan => exact .of_entered rfl rfl rfl upTo
  | policy => exact .of_entered rfl rfl rfl upTo
  | execute =>
    dsimp only
    split
    · exact .of_entered rfl rfl rfl upTo
    · exact .of_entered rfl rfl rfl upTo
  | validate =>
    dsimp only
    split
    · exact .of_entered rfl rfl rfl upTo
    · exact .of_entered rfl rfl rfl upTo
  | score => exact .of_entered rfl rfl rfl upTo
  | report => exact .of_entered rfl rfl rfl upTo

variable [u : UnicodeTables]

/-- The phases that write nothing when they end. -/
theorem TraceInv.quiet (hT : TraceInv o states) (main : o.main = some m) {e : MainEvent}
    (hquiet : ∀ o', writes o (.main e) o' = [])
    (h : mainStep registry record settings o m e = some o') : TraceInv o' states := by
  have upTo : ∀ {pc k}, m.pc = pc → pc.reached = some k → states = PHASES.take k :=
    fun hpc hk ↦ hT.going m main _ (by rw [hpc]; exact hk)
  cases e with
  | enter | reported | cancelled | raise => exact absurd (hquiet o.idle) (List.cons_ne_nil _ _)
  | discovered found =>
    simp only [Orchestrator.mainStep] at h
    split at h
    next pc =>
      rw [← Option.some.inj h]
      exact hT.of_endPhase (sameRun_addEndpoints o found).state _ _ (upTo pc rfl)
    next => cases h
  | plan multi strategy order =>
    simp only [Orchestrator.mainStep] at h
    split at h
    next pc =>
      rw [← Option.some.inj h]
      refine .of_reached (fun s hs ↦ ?_) rfl rfl (upTo pc rfl)
      exact (freeze_state o).trans (hT.last s hs)
    next => cases h
  | policy =>
    simp only [Orchestrator.mainStep] at h
    split at h
    next pc =>
      rw [← Option.some.inj h]
      have hlast : ∀ s ∈ states.getLast?, (judgeAll registry record settings o
          (underReview settings o m)).freeze.assessment.state = s := fun s hs ↦
        (freeze_state (judgeAll registry record settings o (underReview settings o m))).trans
          (hT.last s hs)
      unfold _phase_policy
      dsimp only
      split
      · split
        · exact .of_reached hlast rfl rfl (upTo pc rfl)
        · exact .of_ended hlast (fun m' hm' ↦ by cases hm'; rfl) (.parked rfl (upTo pc rfl))
      · split
        · exact .of_reached hlast rfl rfl (upTo pc rfl)
        · exact .of_reached hlast rfl rfl (upTo pc rfl)
    next => cases h
  | poll expired =>
    simp only [Orchestrator.mainStep] at h
    split at h
    next approved pending pc =>
      rw [← Option.some.inj h]
      unfold _await_step_approvals
      dsimp only
      split
      · exact .of_reached hT.last rfl rfl (upTo pc rfl)
      · exact .of_reached hT.last rfl rfl (upTo pc rfl)
    next => cases h
  | coordinate elects_stop =>
    simp only [Orchestrator.mainStep] at h
    split at h
    next pc =>
      rw [← Option.some.inj h]
      unfold coordinate
      dsimp only
      split
      · exact hT.of_endPhase rfl _ _ (upTo pc rfl)
      · exact .of_reached hT.last rfl rfl (upTo pc rfl)
    next => cases h
  | send =>
    simp only [Orchestrator.mainStep] at h
    split at h
    · exact Option.some.inj h ▸ hT.congr ⟨rfl, rfl, rfl, rfl⟩
    · cases h
  | dispatch =>
    simp only [Orchestrator.mainStep] at h
    split at h
    next steps pc =>
      obtain ⟨tasks, -, rfl⟩ := Option.map_eq_some_iff.1 h
      refine .of_reached (fun s hs ↦ ?_) rfl rfl (upTo pc rfl)
      exact (freeze_state o).trans (hT.last s hs)
    next => cases h
  | deliver i noticed =>
    simp only [Orchestrator.mainStep] at h
    split at h
    next pool errored pc =>
      obtain ⟨⟨t, error⟩, -, rfl⟩ := Option.map_eq_some_iff.1 h
      dsimp only
      split
      · exact hT.of_endPhase (by cases m.client <;> rfl) _ _ (upTo pc rfl)
      · exact .of_reached hT.last rfl rfl (upTo pc rfl)
    next iteration pool pc =>
      obtain ⟨⟨t, error⟩, -, rfl⟩ := Option.map_eq_some_iff.1 h
      dsimp only
      split
      · exact .of_reached hT.last rfl rfl (upTo pc rfl)
      · exact hT.congr ⟨rfl, rfl, rfl, rfl⟩
    next => cases h
  | drained =>
    simp only [Orchestrator.mainStep] at h
    split at h
    next pool errored pc =>
      split at h
      · exact Option.some.inj h ▸ .of_reached hT.last rfl rfl (upTo pc rfl)
      · cases h
    next iteration pool pc =>
      split at h
      · exact Option.some.inj h ▸ .of_reached hT.last rfl rfl (upTo pc rfl)
      · cases h
    next => cases h
  | retry noticed =>
    simp only [Orchestrator.mainStep] at h
    split at h
    next attempt queue errored pc =>
      unfold retry at h
      split at h
      next i rest =>
        obtain ⟨t, -, rfl⟩ := Option.map_eq_some_iff.1 h
        exact .of_reached hT.last rfl rfl (upTo pc rfl)
      next =>
        split at h
        · exact Option.some.inj h ▸ .of_reached hT.last rfl rfl (upTo pc rfl)
        · exact Option.some.inj h ▸ .of_reached hT.last rfl rfl (upTo pc rfl)
    next => cases h
  | retried =>
    simp only [Orchestrator.mainStep] at h
    split at h
    next attempt i queue errored pc =>
      rw [retried] at h
      split at h
      next t task =>
        split at h
        · exact Option.some.inj h ▸ .of_reached hT.last rfl rfl (upTo pc rfl)
        · cases h
      next => cases h
    next => cases h
  | replan answer =>
    simp only [Orchestrator.mainStep] at h
    split at h
    next iteration pc =>
      rw [_maybe_replan] at h
      split at h
      · cases h
      · split at h
        · exact Option.some.inj h ▸ hT.of_endPhase rfl _ _ (upTo pc rfl)
        · obtain ⟨tasks, -, rfl⟩ := Option.map_eq_some_iff.1 h
          exact .of_reached hT.last rfl rfl (upTo pc rfl)
    next => cases h
  | validated =>
    simp only [Orchestrator.mainStep] at h
    split at h
    next pc => exact Option.some.inj h ▸ hT.of_endPhase rfl _ _ (upTo pc rfl)
    next => cases h
  | scored =>
    simp only [Orchestrator.mainStep] at h
    split at h
    next pc =>
      rw [← Option.some.inj h]
      refine .of_reached (fun s hs ↦ ?_) rfl rfl (upTo pc rfl)
      have hsame : SameRun o (_phase_score registry record o) := sameRun_phase_score o
      exact hsame.state.trans (hT.last s hs)
    next => cases h
  | leave =>
    simp only [Orchestrator.mainStep] at h
    split at h
    next pc =>
      obtain ⟨state, interrupted⟩ : (o.closeMain m).idle.assessment.state = o.assessment.state ∧
          (o.closeMain m).idle.interrupted = o.interrupted := by
        rw [closeMain]
        cases m.client <;> exact ⟨rfl, rfl⟩
      rw [← Option.some.inj h]
      refine .of_ended (fun s hs ↦ state.trans (hT.last s hs)) (fun m' hm' ↦ by cases hm') ?_
      cases hT.ended fun m' hm' ↦ (Option.some.inj (main.symm.trans hm') ▸ pc) with
      | finished lawful => exact .finished lawful
      | parked parked upTo => exact .parked (interrupted.trans parked) upTo
    next => cases h

/-- **A step of the run** keeps the invariant. -/
theorem TraceInv.mainStep (hT : TraceInv o states) (main : o.main = some m) {e : MainEvent}
    (hpersists : PersistsFailure record settings o (.main e))
    (h : mainStep registry record settings o m e = some o') :
    TraceInv o' (states ++ writes o (.main e) o') := by
  have hquiet : (∀ o', writes o (.main e) o' = []) →
      TraceInv o' (states ++ writes o (.main e) o') := fun hnil ↦ by
    rw [hnil, List.append_nil]
    exact hT.quiet main hnil h
  cases e with
  | enter now =>
    simp only [Orchestrator.mainStep] at h
    split at h
    next n pc => exact Option.some.inj h ▸ hT.enter main pc hpersists
    next => cases h
  | reported =>
    simp only [Orchestrator.mainStep] at h
    split at h
    next pc =>
      rw [← Option.some.inj h]
      refine .of_ended (last_of_append _) (fun m' hm' ↦ by cases hm'; rfl)
        (.finished ⟨PHASES.length, .COMPLETED, by decide, ?_, fun _ ↦ Nat.le_refl _⟩)
      rw [hT.going m main (Node.report.index + 1) (by rw [pc]; rfl)]
      rfl
    next => cases h
  | cancelled =>
    simp only [Orchestrator.mainStep] at h
    split at h
    next pc =>
      rw [← Option.some.inj h]
      obtain ⟨k, upTo⟩ := hT.cancelling m main pc
      exact .of_last (fun m' hm' ↦ by cases hm'; rfl) (Or.inr rfl) rfl upTo
    next => cases h
  | raise error =>
    simp only [Orchestrator.mainStep] at h
    split at h
    next => cases h
    next hpc =>
      obtain ⟨k, upTo⟩ : ∃ k, states = PHASES.take k := by
        cases hreached : m.pc.reached with
        | some k => exact ⟨k, hT.going m main k hreached⟩
        | none =>
          refine hT.cancelling m main ?_
          cases hm : m.pc <;> simp_all [MainPc.reached]
      rw [← Option.some.inj h]
      unfold raise
      split
      · exact .of_last (fun m' hm' ↦ by cases hm') (Or.inl rfl) rfl upTo
      · exact .of_last (fun m' hm' ↦ by cases hm'; rfl) (Or.inl rfl) rfl upTo
  | _ => exact hquiet fun _ ↦ rfl

/-- **A step of an uninterrupted run** keeps the invariant. -/
theorem TraceInv.step {e : EngineEvent} (hT : TraceInv o states) (hlive : Uninterrupted o e)
    (hpersists : PersistsFailure record settings o e)
    (h : step registry record settings o e = some o') : TraceInv o' (states ++ writes o e o') := by
  cases e with
  | main e =>
    obtain ⟨m, main, h⟩ := Option.bind_eq_some_iff.1 h
    exact hT.mainStep main hpersists h
  | restart => cases hlive.2
  | _ =>
    refine (List.append_nil states).symm ▸ hT.congr (sameRun_of_live hlive.1 ?_ ?_ h)
    · exact fun _ h ↦ by cases h
    · exact fun h ↦ by cases h

/-- **The state trace law**, in every uninterrupted run in which the authorize node of the graph is not
denied: from the launch on, whatever the phases raise and whenever cancellation is requested. -/
theorem law_of_run {es : List EngineEvent} {o₀ o : Orchestrator} (idle : o₀.main = none)
    (fresh : o₀.thread = none)
    (hes : Machine.Along (step registry record settings)
      (fun o e ↦ Uninterrupted o e ∧ PersistsFailure record settings o e)
      (start_assessment settings o₀) es)
    (h : Machine.run (step registry record settings) (start_assessment settings o₀) es = some o) :
    Law o (Machine.trace (step registry record settings) writes (start_assessment settings o₀) es) ∧
      (o.main = none → o.assessment.state ∈ TERMINAL_STATES ∨
        o.interrupted = true ∧ o.assessment.state = .POLICY_CHECK) := by
  have hstart : TraceInv (start_assessment settings o₀) [] := by
    rw [start_assessment, idle, fresh]
    refine .of_reached (k := 0) (fun s hs ↦ by cases hs) rfl ?_ rfl
    cases settings.use_langgraph <;> rfl
  have hstep : ∀ {o o' : Orchestrator} {e : EngineEvent} {w : List AssessmentState}, TraceInv o w →
      Uninterrupted o e ∧ PersistsFailure record settings o e →
      Orchestrator.step registry record settings o e = some o' → TraceInv o' (w ++ writes o e o') :=
    fun hT hC hs ↦ hT.step hC.1 hC.2 hs
  have hT : TraceInv o (Machine.trace (step registry record settings) writes
      (start_assessment settings o₀) es) :=
    Machine.inv_of_trace_along hstep hes h hstart
  exact ⟨hT.law, hT.law.terminal⟩

end Orchestrator

section

attribute [local instance] asciiTables

/-- A run from its launch to its end, past one agent. -/
def completeRun : List EngineEvent :=
  (throughPolicy [sampleEndpoint]).tail ++ throughDispatch ++ runAgent 0 ++
    throughReplan ["security_headers"] ++ throughReport

theorem law_of_run_graph : ∃ o, Machine.run
      (Orchestrator.step builtinRegistry (scanRecord ["security_headers"]) { use_langgraph := true })
      (Orchestrator.start_assessment { use_langgraph := true } (.created 1 [] false none)) completeRun =
        some o ∧
    o.Law (Machine.trace
      (Orchestrator.step builtinRegistry (scanRecord ["security_headers"]) { use_langgraph := true })
      Orchestrator.writes
      (Orchestrator.start_assessment { use_langgraph := true } (.created 1 [] false none))
      completeRun) := by
  obtain ⟨o, ho, -⟩ : ∃ o, Machine.run
      (Orchestrator.step builtinRegistry (scanRecord ["security_headers"]) { use_langgraph := true })
      (Orchestrator.start_assessment { use_langgraph := true } (.created 1 [] false none)) completeRun =
        some o ∧ True := by
    decide +kernel
  exact ⟨o, ho, (Orchestrator.law_of_run rfl rfl (by decide +kernel) ho).1⟩

/-- The record is not verified: the run of the graph is over after its first node, and the assessment
stays `AUTHORIZED`. -/
theorem deniedRun_not_law : ∃ o, Machine.run
      (Orchestrator.step builtinRegistry { org_id := 1, target_id := 1 } { use_langgraph := true })
      (Orchestrator.start_assessment { use_langgraph := true } (.created 1 [] false none))
      [.main (.enter 0)] = some o ∧
    (o.main.isSome = false ∧ o.assessment.state = .AUTHORIZED) ∧
    ¬o.Law (Machine.trace
      (Orchestrator.step builtinRegistry { org_id := 1, target_id := 1 } { use_langgraph := true })
      Orchestrator.writes
      (Orchestrator.start_assessment { use_langgraph := true } (.created 1 [] false none))
      [.main (.enter 0)]) := by
  obtain ⟨o, ho, hmain, hstate⟩ : ∃ o, Machine.run
      (Orchestrator.step builtinRegistry { org_id := 1, target_id := 1 } { use_langgraph := true })
      (Orchestrator.start_assessment { use_langgraph := true } (.created 1 [] false none))
      [.main (.enter 0)] = some o ∧ o.main.isSome = false ∧ o.assessment.state = .AUTHORIZED := by
    decide +kernel
  refine ⟨o, ho, ⟨hmain, hstate⟩, fun hL ↦ ?_⟩
  have hterminal := hL.terminal (by simpa using hmain)
  rw [hstate] at hterminal
  rcases hterminal with hterminal | ⟨-, hparked⟩
  · exact absurd hterminal (by decide)
  · cases hparked

end

end Sentrik
