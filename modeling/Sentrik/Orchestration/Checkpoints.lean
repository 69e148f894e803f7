import Sentrik.Orchestration.Cancellation
import Sentrik.Orchestration.Claims
import Sentrik.Orchestration.CoverageReport
import Sentrik.Orchestration.Custody

/-!
# Two durable stores: commits and checkpoints

In the graph a node commits its work to the database, and the checkpointer stores the position of the graph
**after** the node has returned. Between the two the process can die. The next process takes the graph up
at the position that was stored, so it runs the node once more.

`Durable` puts the stored position beside the orchestrator, whose own `thread` is the position that the
graph is going to store. A `checkpoint` stores it; nothing else in the run goes on before. A crash puts the
stored position back.

Policy judges only what is still planned, execution takes only what is approved, and every result is
written with the status of its step. So these nodes can run again. Planning inserts its rows once more:
`unique_of_heeds` excludes a crash in that window, a second start after a failure, and checks that share a
name.
-/

namespace Sentrik

/-- An assessment in the graph, and what the checkpointer has stored of it. -/
structure Durable where
  engine : Orchestrator
  /-- The pending node, and whether it is interrupted. -/
  saved : Option Node × Bool := (none, false)
  /-- The rows planning has inserted since the table was last cleared. -/
  planned : List PlanStep := []
  /-- The steps whose check ran to its end and whose result was persisted, as often as it was. -/
  completed : List ℕ := []

inductive DurableEvent
  /-- A step of the engine; a restart is a crash and the startup sweep. -/
  | engine (e : EngineEvent)
  /-- A phase freezes the skills, in a transaction before its own. -/
  | freeze
  | checkpoint

/-- What a step is planned for: the endpoint and the name of the check. -/
def PlanStep.pair (s : PlanStep) : ℕ × String := (s.endpoint_id, s.check_name)

/-- Whether a phase may freeze the skills here. -/
def MainPc.freezes : MainPc → Bool
  | .inside .plan | .inside .policy | .loggingIn _ => true
  | _ => false

/-- Whether the node is not past planning. -/
def Node.plans : Node → Bool
  | .authorize | .discover | .plan => true
  | _ => false

namespace Durable

/-- What the graph is going to store. A node that has seen the cancel flag routes to the end. -/
def position (o : Orchestrator) : Option Node × Bool :=
  if o.main.any (·.pc == .cancelling) then (none, false) else (o.thread, o.interrupted)

/-- Whether the position is stored. -/
def Synced (d : Durable) : Prop := d.saved = position d.engine

instance (d : Durable) : Decidable d.Synced := inferInstanceAs (Decidable (_ = _))

/-- The task of the run is there until its last position is stored. -/
def keepTask (d : Durable) : Durable :=
  if d.engine.main = none ∧ ¬d.Synced then { d with engine := d.engine.setMain { pc := .leaving } }
  else d

/-- What cannot happen now: the run goes on when its position is stored, unless it fails. -/
def Blocked (d : Durable) : EngineEvent → Prop
  | .main (.raise _) => False
  | .main _ => ¬d.Synced
  | _ => False

instance (d : Durable) (e : EngineEvent) : Decidable (d.Blocked e) :=
  match e with
  | .main (.raise _) => isFalse not_false
  | .main (.enter _) | .main (.discovered _) | .main (.plan ..) | .main .policy | .main (.poll _)
  | .main (.coordinate _) | .main .send | .main .dispatch | .main (.deliver ..) | .main .drained
  | .main (.retry _) | .main .retried | .main (.replan _) | .main .validated | .main .scored
  | .main .reported | .main .cancelled | .main .leave => inferInstanceAs (Decidable ¬d.Synced)
  | .execution .. | .task .. | .start _ | .cancel | .cancel_all | .approve .. | .deny .. | .triage
  | .ingest _ | .register _ | .restart => isFalse not_false

/-- The engine that a new process finds: the position is the stored one. -/
def reloaded (d : Durable) : Orchestrator :=
  { d.engine with thread := d.saved.1, interrupted := d.saved.2 }

section

variable (registry : _Registry) (record : AuthorizationRecord) (settings : Settings)
variable [u : UnicodeTables]

/-- The rows planning inserts by a step of the engine. -/
def plannedRows (o : Orchestrator) (e : EngineEvent) : List PlanStep :=
  if e.planning.isSome then Orchestrator.inserted registry record settings o e else []

def step (d : Durable) : DurableEvent → Option Durable
  | .engine .restart =>
    some { d with
      engine := Orchestrator.resume_incomplete_assessments settings d.reloaded.crash
      planned := if d.reloaded.restarts settings then [] else d.planned }
  | .engine e =>
    if d.Blocked e then none
    else
      (Orchestrator.step registry record settings d.engine e).map fun o ↦
        keepTask { d with
          engine := o
          planned := d.planned ++ plannedRows registry record settings d.engine e
          completed := d.completed ++ d.engine.completions e }
  | .freeze =>
    if d.engine.main.any (·.pc.freezes) then some { d with engine := d.engine.freeze } else none
  | .checkpoint => if d.engine.main.isSome then some { d with saved := position d.engine } else none

end

/-- An assessment before its run. -/
def created (org_id : ℕ) (requested : List String) (incremental : Bool) (prev : Option (List Text)) :
    Durable where
  engine := .created org_id requested incremental prev

/-! ### The property and the condition -/

/-- The stored steps that stem from planning and are for this endpoint and check. -/
def stems (d : Durable) (p : ℕ × String) : List PlanStep :=
  d.engine.steps.filter fun s ↦ (d.planned.map (·.id)).contains s.id && s.pair == p

/-- **Plan steps are unique**: what planning has selected has one step each, and none of these steps is
completed twice. -/
structure Unique (d : Durable) : Prop where
  one : ∀ p ∈ d.planned.map PlanStep.pair, (d.stems p).length = 1
  once : ∀ s ∈ d.planned, d.completed.count s.id ≤ 1

instance (d : Durable) : Decidable d.Unique :=
  decidable_of_iff ((∀ p ∈ d.planned.map PlanStep.pair, (d.stems p).length = 1) ∧
    ∀ s ∈ d.planned, d.completed.count s.id ≤ 1) ⟨fun h ↦ ⟨h.1, h.2⟩, fun h ↦ ⟨h.one, h.once⟩⟩

/-- Planning has committed its rows, and its node is not checkpointed. -/
def Window (d : Durable) : Prop := d.saved.1 = some .plan ∧ d.engine.thread = some .policy

instance (d : Durable) : Decidable d.Window := inferInstanceAs (Decidable (_ ∧ _))

section

variable (registry : _Registry) (record : AuthorizationRecord) (settings : Settings)
variable [u : UnicodeTables]

/-- No two checks that are considered for an endpoint have the same name. -/
def DistinctNames (o : Orchestrator) (multi : Bool) : Prop :=
  ∀ m ∈ o.main, ∀ e ∈ Orchestrator.offered settings o m,
    (((allChecks registry o._declaratives).filter fun check ↦
      Considers (Orchestrator.effective record o.assessment) (_coerce_intensity record.intensity) multi
        (_endpoint_view e) check).map (·.name)).Nodup

/-- **The condition on a step**: the process does not die between the commit of planning and the checkpoint
of its node, a run that failed is not started again, and the checks that planning selects for an endpoint
have distinct names. -/
def Heeds (d : Durable) : DurableEvent → Prop
  | .engine .restart => ¬d.Window
  | .engine (.start _) => d.engine.assessment.state ≠ .FAILED
  | .engine (.main (.plan multi _ _)) => DistinctNames registry record settings d.engine multi
  | _ => True

instance (o : Orchestrator) (multi : Bool) : Decidable (DistinctNames registry record settings o multi) :=
  inferInstanceAs (Decidable (∀ m ∈ o.main, _))

instance (d : Durable) (e : DurableEvent) : Decidable (Heeds registry record settings d e) := by
  unfold Heeds
  split <;> infer_instance

end

end Durable

namespace Orchestrator

/-! ### Where the run is -/

/-- **The invariant on places.** While the graph has a node up to planning to run, nothing is planned; while
it has one up to execution to run, or there is no task and the run is not over, nothing is on its way to a
result. -/
structure Located (planned : List PlanStep) (o : Orchestrator) : Prop where
  live : ∀ m ∈ o.main, m.pc ≠ .leaving → o.assessment.state ∉ TERMINAL_STATES
  node : ∀ m ∈ o.main, ∀ n ∈ m.pc.node, o.thread = some n
  awake : ∀ m ∈ o.main, m.pc.waits = false
  unplanned : o.assessment.state ∉ TERMINAL_STATES → ∀ n ∈ o.thread, n.plans = true → planned = []
  away : (∀ m ∈ o.main, m.pc = .leaving) → o.assessment.state ∉ TERMINAL_STATES →
    (o.thread = none → planned = []) ∧ ∀ id, o.claims id = 0
  idle : ∀ m ∈ o.main, ∀ n ∈ m.pc.node, n.early = true → ∀ id, o.claims id = 0
  begun : ∀ n ∈ o.thread, n ≠ .authorize → o.assessment.started = true
  executing : ∀ m ∈ o.main, m.pc.node = none → m.pc = .leaving ∨ m.pc = .cancelling ∨
    o.assessment.started = true
  started : o.assessment.started = false → planned = []

section

variable {planned planned' : List PlanStep} {o o' : Orchestrator} {m m' : Main} {n : Node}

/-- The task is at a node, and the graph has it pending. -/
theorem Located.of_node (main' : o'.main = some m') (pc : m'.pc = .entering n ∨ m'.pc = .inside n)
    (thread : o'.thread = some n) (state : o'.assessment.state ∉ TERMINAL_STATES)
    (unplanned : n.plans = true → planned' = []) (idle : n.early = true → ∀ id, o'.claims id = 0)
    (begun : n ≠ .authorize → o'.assessment.started = true)
    (started : o'.assessment.started = false → planned' = []) : Located planned' o' := by
  have hnode : m'.pc.node = some n := by rcases pc with pc | pc <;> rw [pc] <;> rfl
  have hmain : ∀ {m₁}, m₁ ∈ o'.main → m₁ = m' := fun hm ↦ Option.some.inj (hm.symm.trans main')
  refine ⟨fun _ _ _ ↦ state, fun m₁ hm n₁ hn ↦ ?_, fun m₁ hm ↦ ?_, fun _ n₁ hn hplans ↦ ?_,
    fun hleaving ↦ ?_, fun m₁ hm n₁ hn hearly ↦ ?_, fun n₁ hn hne ↦ ?_, fun m₁ hm hnone ↦ ?_, started⟩
  · rw [hmain hm] at hn
    exact thread.trans (hnode.symm.trans hn)
  · rw [hmain hm]
    rcases pc with pc | pc <;> rw [pc] <;> rfl
  · obtain rfl := Option.some.inj (thread.symm.trans hn)
    exact unplanned hplans
  · have hpc := hleaving m' main'
    rcases pc with pc | pc <;> rw [pc] at hpc <;> cases hpc
  · rw [hmain hm] at hn
    obtain rfl := Option.some.inj (hnode.symm.trans hn)
    exact idle hearly
  · obtain rfl := Option.some.inj (thread.symm.trans hn)
    exact begun hne
  · rw [hmain hm, hnode] at hnone
    cases hnone

/-- The task is at another place of its node. -/
theorem Located.of_inner (hL : Located planned o) (state : o.assessment.state ∉ TERMINAL_STATES)
    (main' : o'.main = some m') (node : m'.pc.node = none) (awake : m'.pc.waits = false)
    (stays : m'.pc ≠ .leaving) (thread : o'.thread = o.thread)
    (state' : o'.assessment.state = o.assessment.state)
    (begun : m'.pc = .cancelling ∨ o'.assessment.started = true)
    (started : o.assessment.started = true → o'.assessment.started = true) : Located planned o' := by
  have hmain : ∀ {m₁}, m₁ ∈ o'.main → m₁ = m' := fun hm ↦ Option.some.inj (hm.symm.trans main')
  refine ⟨fun _ _ _ ↦ state' ▸ state, fun m₁ hm n₁ hn ↦ ?_, fun m₁ hm ↦ hmain hm ▸ awake,
    fun _ n₁ hn ↦ hL.unplanned state n₁ (thread ▸ hn), fun hleaving ↦ absurd (hleaving m' main') stays,
    fun m₁ hm n₁ hn ↦ ?_, fun n₁ hn hne ↦ started (hL.begun n₁ (thread ▸ hn) hne),
    fun m₁ hm _ ↦ hmain hm ▸ Or.inr begun, fun hnot ↦ ?_⟩
  · rw [hmain hm, node] at hn
    cases hn
  · rw [hmain hm, node] at hn
    cases hn
  · refine hL.started (Bool.eq_false_iff.2 fun hstarted ↦ ?_)
    rw [started hstarted] at hnot
    cases hnot

/-- There is no task, or only its end. -/
theorem Located.of_away (main' : ∀ m ∈ o'.main, m.pc = .leaving)
    (unplanned : o'.assessment.state ∉ TERMINAL_STATES → ∀ n ∈ o'.thread, n.plans = true → planned' = [])
    (away : o'.assessment.state ∉ TERMINAL_STATES →
      (o'.thread = none → planned' = []) ∧ ∀ id, o'.claims id = 0)
    (begun : ∀ n ∈ o'.thread, n ≠ .authorize → o'.assessment.started = true)
    (started : o'.assessment.started = false → planned' = []) : Located planned' o' := by
  refine ⟨fun m hm hne ↦ absurd (main' m hm) hne, fun m hm n hn ↦ ?_, fun m hm ↦ ?_, unplanned,
    fun _ ↦ away, fun m hm n hn ↦ ?_, begun, fun m hm _ ↦ Or.inl (main' m hm), started⟩
  · rw [main' m hm] at hn
    cases hn
  · rw [main' m hm]
    rfl
  · rw [main' m hm] at hn
    cases hn

/-- The run is over. -/
theorem Located.of_over (main' : ∀ m ∈ o'.main, m.pc = .leaving)
    (state : o'.assessment.state ∈ TERMINAL_STATES) (thread : o'.thread = none)
    (started : o'.assessment.started = false → planned' = []) : Located planned' o' := by
  refine .of_away main' (absurd state) (absurd state) (fun n hn ↦ ?_) started
  rw [thread] at hn
  cases hn

/-- There is no task, or only its end, as before. -/
theorem Located.of_left (hL : Located planned o) (leaving : ∀ m ∈ o.main, m.pc = .leaving)
    (main' : ∀ m ∈ o'.main, m.pc = .leaving) (thread : o'.thread = o.thread)
    (state : o'.assessment.state ∉ TERMINAL_STATES → o.assessment.state ∉ TERMINAL_STATES)
    (claims : ∀ id, o'.claims id ≤ o.claims id)
    (started : o.assessment.started = true → o'.assessment.started = true) : Located planned o' := by
  refine .of_away main' (fun hopen n hn ↦ hL.unplanned (state hopen) n (thread ▸ hn)) (fun hopen ↦ ?_)
    (fun n hn hne ↦ started (hL.begun n (thread ▸ hn) hne)) fun hnot ↦ ?_
  · obtain ⟨hfresh, hzero⟩ := hL.away leaving (state hopen)
    exact ⟨fun hnone ↦ hfresh (thread ▸ hnone), fun id ↦ Nat.le_zero.1 (hzero id ▸ claims id)⟩
  · refine hL.started (Bool.eq_false_iff.2 fun hs ↦ ?_)
    rw [started hs] at hnot
    cases hnot

/-- The task is where it was, and nothing new is on its way unless the run is over. -/
theorem Located.of_same (hL : Located planned o) (main : o'.main = o.main) (thread : o'.thread = o.thread)
    (state : o'.assessment.state = o.assessment.state)
    (claims : o.assessment.state ∉ TERMINAL_STATES → ∀ id, o'.claims id ≤ o.claims id)
    (started : o.assessment.started = true → o'.assessment.started = true) : Located planned o' := by
  have hzero : o.assessment.state ∉ TERMINAL_STATES → (∀ id, o.claims id = 0) → ∀ id, o'.claims id = 0 :=
    fun hopen h id ↦ Nat.le_zero.1 (h id ▸ claims hopen id)
  refine ⟨fun m hm ↦ ?_, fun m hm n hn ↦ ?_, fun m hm ↦ hL.awake m (main ▸ hm), fun hopen n hn ↦ ?_,
    fun hleaving hopen ↦ ?_, fun m hm n hn hearly ↦ ?_,
    fun n hn hne ↦ started (hL.begun n (thread ▸ hn) hne),
    fun m hm hnone ↦ (hL.executing m (main ▸ hm) hnone).imp id (.imp id started), fun hnot ↦ ?_⟩
  · rw [state]
    exact hL.live m (main ▸ hm)
  · rw [thread]
    exact hL.node m (main ▸ hm) n hn
  · exact hL.unplanned (state ▸ hopen) n (thread ▸ hn)
  · obtain ⟨hnone, hclaims⟩ := hL.away (fun m hm ↦ hleaving m (main ▸ hm)) (state ▸ hopen)
    exact ⟨fun hthread ↦ hnone (thread ▸ hthread), hzero (state ▸ hopen) hclaims⟩
  · -- a task at a node has not written the last state
    have hstays : m.pc ≠ .leaving := by
      intro pc
      rw [pc] at hn
      cases hn
    exact hzero (hL.live m (main ▸ hm) hstays) (hL.idle m (main ▸ hm) n hn hearly)
  · refine hL.started (Bool.eq_false_iff.2 fun hstarted ↦ ?_)
    rw [started hstarted] at hnot
    cases hnot

/-- The run is launched, at its position. -/
theorem Located.launch (hL : Located planned o) {settings : Settings} (graph : settings.use_langgraph = true)
    (idle : o.main = none) (opens : o.assessment.state ∉ TERMINAL_STATES) :
    Located planned (start_assessment settings o) := by
  have hnone : ∀ m ∈ o.main, m.pc = .leaving := fun m hm ↦ by
    rw [idle] at hm
    cases hm
  obtain ⟨hfresh, hclaims⟩ := hL.away hnone opens
  have hlive : ¬o.main.isSome = true := by
    rw [idle]
    exact Bool.false_ne_true
  rw [start_assessment, if_neg hlive, if_pos graph, goto, if_pos graph]
  refine .of_node rfl (Or.inl rfl) rfl opens (fun hplans ↦ ?_)
    (fun _ id ↦ Nat.le_zero.1 (hclaims id ▸ (Flow.of_main (o := o) rfl rfl).claims id)) (fun hne ↦ ?_)
    hL.started
  · cases hthread : o.thread with
    | none => exact hfresh hthread
    | some n =>
      rw [hthread] at hplans
      exact hL.unplanned opens n hthread hplans
  · cases hthread : o.thread with
    | none =>
      rw [hthread] at hne
      exact absurd rfl hne
    | some n =>
      rw [hthread] at hne
      exact hL.begun n hthread hne

theorem Located.resume_if_parked (hL : Located planned o) {settings : Settings}
    (graph : settings.use_langgraph = true) : Located planned (_resume_if_parked settings o) := by
  rw [_resume_if_parked]
  split
  · exact hL
  next hparked =>
    obtain ⟨hmain, hstate⟩ := not_or.1 hparked
    have hpolicy : o.assessment.state = .POLICY_CHECK := not_not.1 hstate
    split
    · refine hL.launch graph (Option.not_isSome_iff_eq_none.1 hmain) ?_
      rw [hpolicy]
      decide
    · exact hL

end

end Orchestrator

/-! ### A run that has begun -/

namespace Driver

variable {settings : Settings} {d d' : Driver}

theorem started_launch (h : d.started = true) : (d.launch settings).started = true := by
  rw [launch]
  split
  · exact h
  · exact h

theorem started_sweep (h : d.started = true) : (d.sweep settings).started = true := by
  rw [sweep]
  split
  · exact h
  split
  · exact started_launch h
  · exact started_launch h

/-- Nobody takes back that the run has begun. -/
theorem started_of_step {e : DriverEvent} (h : step settings d e = some d') (hd : d.started = true) :
    d'.started = true := by
  cases e with
  | read | write =>
    rw [step.eq_def] at h
    dsimp only at h
    split at h
    · rw [← Option.some.inj h]
      first | exact hd | exact Bool.or_eq_true_iff.2 (Or.inr hd)
    · cases h
  | finish =>
    rw [step.eq_def] at h
    dsimp only at h
    split at h
    · split at h
      · exact Option.some.inj h ▸ hd
      · exact Option.some.inj h ▸ hd
    · cases h
  | park | route | cancelled | leave =>
    rw [step.eq_def] at h
    dsimp only at h
    split at h
    · exact Option.some.inj h ▸ hd
    · cases h
  | refuse =>
    rw [step.eq_def] at h
    dsimp only at h
    split_ifs at h
    · exact Option.some.inj h ▸ hd
    · exact Option.some.inj h ▸ hd
  | raise =>
    rw [step.eq_def] at h
    dsimp only at h
    split at h
    · cases h
    · exact Option.some.inj h ▸ hd
  | start reset =>
    rw [step.eq_def] at h
    dsimp only at h
    split at h
    · exact Option.some.inj h ▸ started_launch hd
    · exact Option.some.inj h ▸ hd
  | resume =>
    rw [step.eq_def] at h
    dsimp only at h
    split at h
    · exact Option.some.inj h ▸ started_launch hd
    · cases h
  | cancel | cancel_all =>
    rw [step.eq_def] at h
    dsimp only at h
    split at h
    · exact Option.some.inj h ▸ hd
    · exact Option.some.inj h ▸ hd
  | restart => exact Option.some.inj h ▸ started_sweep hd

end Driver

namespace Orchestrator

section

variable {registry : _Registry} {record : AuthorizationRecord} {settings : Settings}
variable {o o' : Orchestrator} {m : Main} {planned planned' : List PlanStep} [u : UnicodeTables]

theorem started_of_step {e : EngineEvent} (h : step registry record settings o e = some o')
    (hstarted : o.assessment.started = true) : o'.assessment.started = true := by
  obtain ⟨es, hes⟩ := follows_of_step h
  exact Machine.inv_of_run (I := fun d : Driver ↦ d.started = true)
    (fun hd hs ↦ Driver.started_of_step hs hd) hes hstarted

/-! ### One step of the run -/

omit u in
/-- A phase ends. -/
theorem located_endPhase (graph : settings.use_langgraph = true) (m : Main) {n : Node} {o₁ : Orchestrator}
    (state : o₁.assessment.state ∉ TERMINAL_STATES) (plans : n.plans = false) (early : n.early = false)
    (started : o₁.assessment.started = true) : Located planned (endPhase settings o₁ m n) := by
  obtain ⟨connections, heq⟩ := closeMain_eq o₁ m
  rw [endPhase, if_pos graph, heq, goto, if_pos graph]
  refine .of_node (n := n) rfl (Or.inl rfl) rfl state (fun h ↦ ?_) (fun h ↦ ?_) (fun _ ↦ started)
    fun h ↦ ?_
  · rw [plans] at h
    cases h
  · rw [early] at h
    cases h
  · have hstarted : o₁.assessment.started = false := h
    rw [started] at hstarted
    cases hstarted

/-- **A step of the run.** -/
theorem Located.mainStep (hL : Located planned o) (graph : settings.use_langgraph = true)
    (main : o.main = some m) {e : MainEvent}
    (hplanned : (∀ multi strategy order, e ≠ .plan multi strategy order) → planned' = planned)
    (hclaims : ∀ id, o'.claims id ≤ o.claims id + (taken registry record settings o (.main e)).count id)
    (hstarted : o.assessment.started = true → o'.assessment.started = true)
    (h : Orchestrator.mainStep registry record settings o m e = some o') : Located planned' o' := by
  have hopen : m.pc ≠ .leaving → o.assessment.state ∉ TERMINAL_STATES := hL.live m main
  have hnode : ∀ {n}, m.pc.node = some n → o.thread = some n := fun hn ↦ hL.node m main _ hn
  have hunstarted : planned' = planned → o'.assessment.started = false → planned' = [] := by
    intro heq hnot
    rw [heq]
    refine hL.started (Bool.eq_false_iff.2 fun hs ↦ ?_)
    rw [hstarted hs] at hnot
    cases hnot
  have hzero : (∀ id, o'.claims id ≤ o.claims id) → ∀ {n}, m.pc.node = some n → n.early = true →
      ∀ id, o'.claims id = 0 :=
    fun hle n hn hearly id ↦ Nat.le_zero.1 (hL.idle m main n hn hearly id ▸ hle id)
  have hbegun : ∀ {n}, m.pc.node = some n → n ≠ .authorize → o.assessment.started = true :=
    fun hn hne ↦ hL.begun _ (hnode hn) hne
  have hexecuting : m.pc.node = none → m.pc ≠ .leaving → m.pc ≠ .cancelling →
      o.assessment.started = true := fun hn hne hne' ↦
    ((hL.executing m main hn).resolve_left hne).resolve_left hne'
  cases e with
  | enter now =>
    obtain rfl := hplanned fun multi strategy order he ↦ by cases he
    have hquiet : ∀ id, o'.claims id ≤ o.claims id := fun id ↦ hclaims id
    simp only [Orchestrator.mainStep] at h
    split at h
    next n pc =>
      have hn : m.pc.node = some n := by rw [pc]; rfl
      have hlive := hopen (by rw [pc]; rintro ⟨⟩)
      have heq := Option.some.inj h
      have hunplanned : n.plans = true → planned' = [] := hL.unplanned hlive n (hnode hn)
      unfold enter at heq
      dsimp only at heq
      split at heq
      · subst heq
        exact hL.of_inner hlive rfl rfl rfl (by rintro ⟨⟩) rfl rfl (Or.inl rfl) id
      have hinside : ∀ {m' : Main}, o'.main = some m' → m'.pc = .inside n → o'.thread = o.thread →
          o'.assessment.state ∉ TERMINAL_STATES → n ≠ .authorize → Located planned' o' :=
        fun main' pc' hthread hstate hne ↦ .of_node main' (Or.inr pc') (hthread.trans (hnode hn)) hstate
          hunplanned (hzero hquiet hn) (fun _ ↦ hstarted (hbegun hn hne)) (hunstarted rfl)
      cases n with
      | authorize =>
        have hnil : planned' = [] := hunplanned rfl
        dsimp only at heq
        split at heq
        · subst heq
          exact .of_away (fun m' hm' ↦ by cases hm') (fun _ n' hn' ↦ by cases hn')
            (fun _ ↦ ⟨fun _ ↦ hnil, hzero hquiet hn rfl⟩) (fun n' hn' ↦ by cases hn') fun _ ↦ hnil
        · rw [goto, if_pos graph] at heq
          subst heq
          exact .of_node rfl (Or.inl rfl) rfl (show AssessmentState.AUTHORIZED ∉ TERMINAL_STATES by decide)
            (fun _ ↦ hnil) (fun _ ↦ hzero hquiet hn rfl) (fun _ ↦ rfl) fun _ ↦ hnil
      | discover =>
        dsimp only at heq
        split at heq
        next hinline => exact absurd graph hinline.1
        next =>
          subst heq
          exact hinside rfl rfl rfl (show AssessmentState.DISCOVERING ∉ TERMINAL_STATES by decide) (by decide)
      | plan =>
        subst heq
        exact hinside rfl rfl rfl (show AssessmentState.PLANNING ∉ TERMINAL_STATES by decide) (by decide)
      | policy =>
        subst heq
        exact hinside rfl rfl rfl (show AssessmentState.POLICY_CHECK ∉ TERMINAL_STATES by decide) (by decide)
      | execute =>
        dsimp only at heq
        subst heq
        exact hinside rfl rfl rfl (show AssessmentState.EXECUTING ∉ TERMINAL_STATES by decide) (by decide)
      | validate =>
        dsimp only at heq
        subst heq
        exact hinside rfl rfl rfl (show AssessmentState.VALIDATING ∉ TERMINAL_STATES by decide) (by decide)
      | score =>
        subst heq
        exact hinside rfl rfl rfl (show AssessmentState.SCORING ∉ TERMINAL_STATES by decide) (by decide)
      | report =>
        subst heq
        exact hinside rfl rfl rfl (show AssessmentState.REPORTING ∉ TERMINAL_STATES by decide) (by decide)
    next => cases h
  | discovered found =>
    obtain rfl := hplanned fun multi strategy order he ↦ by cases he
    have hquiet : ∀ id, o'.claims id ≤ o.claims id := fun id ↦ hclaims id
    simp only [Orchestrator.mainStep] at h
    split at h
    next pc =>
      have hn : m.pc.node = some .discover := by rw [pc]; rfl
      have hlive := hopen (by rw [pc]; rintro ⟨⟩)
      have hnil : planned' = [] := hL.unplanned hlive _ (hnode hn) rfl
      have heq := Option.some.inj h
      obtain ⟨endpoints, nextId, -, hadd⟩ := addEndpoints_eq o found
      rw [_phase_discovery] at heq
      obtain ⟨connections, hclose⟩ := closeMain_eq (o.addEndpoints found).1
        { m with saved := (o.addEndpoints found).2 }
      dsimp only at heq
      rw [endPhase, if_pos graph, hclose, hadd, goto, if_pos graph] at heq
      subst heq
      exact .of_node rfl (Or.inl rfl) rfl hlive (fun _ ↦ hnil) (fun _ ↦ hzero hquiet hn rfl)
        (fun _ ↦ hbegun hn (by decide)) fun _ ↦ hnil
    next => cases h
  | plan multi strategy order =>
    have hquiet : ∀ id, o'.claims id ≤ o.claims id := fun id ↦ hclaims id
    simp only [Orchestrator.mainStep] at h
    split at h
    next pc =>
      have hn : m.pc.node = some .plan := by rw [pc]; rfl
      have hlive := hopen (by rw [pc]; rintro ⟨⟩)
      have hs := hstarted (hbegun hn (by decide))
      have heq := Option.some.inj h
      rw [_phase_planning, goto, if_pos graph] at heq
      have hstate : o'.assessment.state = o.assessment.state := by
        rw [← heq]
        exact freeze_state o
      refine .of_node (n := .policy) (by rw [← heq]) (Or.inl rfl) (by rw [← heq]) (hstate ▸ hlive)
        (fun hplans ↦ by cases hplans) (fun _ ↦ hzero hquiet hn rfl) (fun _ ↦ hs) fun hnot ↦ ?_
      rw [hs] at hnot
      cases hnot
    next => cases h
  | policy =>
    obtain rfl := hplanned fun multi strategy order he ↦ by cases he
    have hquiet : ∀ id, o'.claims id ≤ o.claims id := fun id ↦ hclaims id
    simp only [Orchestrator.mainStep] at h
    split at h
    next pc =>
      have hn : m.pc.node = some .policy := by rw [pc]; rfl
      have hlive := hopen (by rw [pc]; rintro ⟨⟩)
      have hs := hstarted (hbegun hn (by decide))
      have hstate : (judgeAll registry record settings o (underReview settings o m)).freeze.assessment.state =
          o.assessment.state := freeze_state _
      have hthread : (judgeAll registry record settings o (underReview settings o m)).freeze.thread =
          some .policy := by
        rw [freeze_eq]
        exact hnode hn
      have heq := Option.some.inj h
      unfold _phase_policy at heq
      dsimp only at heq
      rw [if_pos graph] at heq
      split at heq
      · rw [goto, if_pos graph] at heq
        refine .of_node (n := .execute) (by rw [← heq]) (Or.inl rfl) (by rw [← heq])
          (by rw [← heq]; exact hstate ▸ hlive) (fun hplans ↦ by cases hplans)
          (fun _ ↦ hzero hquiet hn rfl) (fun _ ↦ hs) (hunstarted rfl)
      · have hthread' : o'.thread = some .policy := by rw [← heq]; exact hthread
        refine .of_away (fun m' hm' ↦ ?_) (fun _ n' hn' hplans ↦ ?_)
          (fun _ ↦ ⟨fun hnone ↦ ?_, hzero hquiet hn rfl⟩) (fun _ _ _ ↦ hs) (hunstarted rfl)
        · rw [← heq] at hm'
          rw [← Option.some.inj hm']
        · obtain rfl := Option.some.inj (hthread'.symm.trans hn')
          cases hplans
        · rw [hthread'] at hnone
          cases hnone
    next => cases h
  | poll expired =>
    simp only [Orchestrator.mainStep] at h
    split at h
    next approved pending pc =>
      have hawake := hL.awake m main
      rw [pc] at hawake
      cases hawake
    next => cases h
  | coordinate elects_stop =>
    obtain rfl := hplanned fun multi strategy order he ↦ by cases he
    simp only [Orchestrator.mainStep] at h
    split at h
    next pc =>
      have hn : m.pc.node = some .execute := by rw [pc]; rfl
      have hlive := hopen (by rw [pc]; rintro ⟨⟩)
      have hs := hbegun hn (by decide)
      have heq := Option.some.inj h
      rw [coordinate] at heq
      split at heq
      · exact heq ▸ located_endPhase graph m hlive rfl rfl hs
      · subst heq
        exact hL.of_inner hlive rfl rfl rfl (by rintro ⟨⟩) rfl rfl (Or.inr hs) id
    next => cases h
  | send =>
    obtain rfl := hplanned fun multi strategy order he ↦ by cases he
    simp only [Orchestrator.mainStep] at h
    split at h
    · have heq := Option.some.inj h
      subst heq
      exact hL.of_same rfl rfl rfl (fun _ id ↦ hclaims id) id
    · cases h
  | dispatch =>
    obtain rfl := hplanned fun multi strategy order he ↦ by cases he
    simp only [Orchestrator.mainStep] at h
    split at h
    next steps pc =>
      have hlive := hopen (by rw [pc]; rintro ⟨⟩)
      have hs := hexecuting (by rw [pc]; rfl) (by rw [pc]; rintro ⟨⟩) (by rw [pc]; rintro ⟨⟩)
      obtain ⟨tasks, -, heq⟩ := Option.map_eq_some_iff.1 h
      have hthread : o.freeze.thread = o.thread := by rw [freeze_eq]
      refine hL.of_inner hlive (by rw [← heq]; rfl) rfl rfl (by rintro ⟨⟩) ?_ ?_ (Or.inr (hstarted hs)) hstarted
      · rw [← heq]
        exact hthread
      · rw [← heq]
        exact freeze_state o
    next => cases h
  | deliver i noticed =>
    obtain rfl := hplanned fun multi strategy order he ↦ by cases he
    simp only [Orchestrator.mainStep] at h
    split at h
    next pool errored pc =>
      have hlive := hopen (by rw [pc]; rintro ⟨⟩)
      have hs := hexecuting (by rw [pc]; rfl) (by rw [pc]; rintro ⟨⟩) (by rw [pc]; rintro ⟨⟩)
      obtain ⟨⟨t, error⟩, -, heq⟩ := Option.map_eq_some_iff.1 h
      dsimp only at heq
      split at heq
      · rw [← heq]
        cases m.client <;> exact located_endPhase graph m hlive rfl rfl hs
      · subst heq
        exact hL.of_inner hlive rfl rfl rfl (by rintro ⟨⟩) rfl rfl (Or.inr hs) id
    next iteration pool pc =>
      have hlive := hopen (by rw [pc]; rintro ⟨⟩)
      have hs := hexecuting (by rw [pc]; rfl) (by rw [pc]; rintro ⟨⟩) (by rw [pc]; rintro ⟨⟩)
      obtain ⟨⟨t, error⟩, -, heq⟩ := Option.map_eq_some_iff.1 h
      dsimp only at heq
      split at heq
      · subst heq
        exact hL.of_inner hlive rfl rfl rfl (by rintro ⟨⟩) rfl rfl (Or.inr hs) id
      · subst heq
        refine hL.of_inner hlive main ?_ ?_ ?_ rfl rfl (Or.inr hs) id
        · rw [pc]
          rfl
        · rw [pc]
          rfl
        · rw [pc]
          rintro ⟨⟩
    next => cases h
  | drained =>
    obtain rfl := hplanned fun multi strategy order he ↦ by cases he
    simp only [Orchestrator.mainStep] at h
    split at h
    next pool errored pc =>
      have hlive := hopen (by rw [pc]; rintro ⟨⟩)
      have hs := hexecuting (by rw [pc]; rfl) (by rw [pc]; rintro ⟨⟩) (by rw [pc]; rintro ⟨⟩)
      split at h
      · have heq := Option.some.inj h
        subst heq
        exact hL.of_inner hlive rfl rfl rfl (by rintro ⟨⟩) rfl rfl (Or.inr hs) id
      · cases h
    next iteration pool pc =>
      have hlive := hopen (by rw [pc]; rintro ⟨⟩)
      have hs := hexecuting (by rw [pc]; rfl) (by rw [pc]; rintro ⟨⟩) (by rw [pc]; rintro ⟨⟩)
      split at h
      · have heq := Option.some.inj h
        subst heq
        exact hL.of_inner hlive rfl rfl rfl (by rintro ⟨⟩) rfl rfl (Or.inr hs) id
      · cases h
    next => cases h
  | retry noticed =>
    obtain rfl := hplanned fun multi strategy order he ↦ by cases he
    simp only [Orchestrator.mainStep] at h
    split at h
    next attempt queue errored pc =>
      have hlive := hopen (by rw [pc]; rintro ⟨⟩)
      have hs := hexecuting (by rw [pc]; rfl) (by rw [pc]; rintro ⟨⟩) (by rw [pc]; rintro ⟨⟩)
      rw [retry.eq_def] at h
      split at h
      · obtain ⟨t, -, heq⟩ := Option.map_eq_some_iff.1 h
        subst heq
        exact hL.of_inner hlive rfl rfl rfl (by rintro ⟨⟩) rfl rfl (Or.inr hs) id
      · split at h
        · have heq := Option.some.inj h
          subst heq
          exact hL.of_inner hlive rfl rfl rfl (by rintro ⟨⟩) rfl rfl (Or.inr hs) id
        · have heq := Option.some.inj h
          subst heq
          exact hL.of_inner hlive rfl rfl rfl (by rintro ⟨⟩) rfl rfl (Or.inr hs) id
    next => cases h
  | retried =>
    obtain rfl := hplanned fun multi strategy order he ↦ by cases he
    simp only [Orchestrator.mainStep] at h
    split at h
    next attempt i queue errored pc =>
      have hlive := hopen (by rw [pc]; rintro ⟨⟩)
      have hs := hexecuting (by rw [pc]; rfl) (by rw [pc]; rintro ⟨⟩) (by rw [pc]; rintro ⟨⟩)
      rw [retried.eq_def] at h
      split at h
      next t task =>
        split at h
        next error state =>
          have heq := Option.some.inj h
          subst heq
          exact hL.of_inner hlive rfl rfl rfl (by rintro ⟨⟩) rfl rfl (Or.inr hs) id
        next => cases h
      next => cases h
    next => cases h
  | replan answer =>
    obtain rfl := hplanned fun multi strategy order he ↦ by cases he
    simp only [Orchestrator.mainStep] at h
    split at h
    next iteration pc =>
      have hlive := hopen (by rw [pc]; rintro ⟨⟩)
      have hs := hexecuting (by rw [pc]; rfl) (by rw [pc]; rintro ⟨⟩) (by rw [pc]; rintro ⟨⟩)
      rw [_maybe_replan] at h
      split at h
      · cases h
      split at h
      · exact Option.some.inj h ▸ located_endPhase graph m hlive rfl rfl hs
      · obtain ⟨tasks, -, heq⟩ := Option.map_eq_some_iff.1 h
        subst heq
        exact hL.of_inner hlive rfl rfl rfl (by rintro ⟨⟩) rfl rfl (Or.inr hs) id
    next => cases h
  | validated =>
    obtain rfl := hplanned fun multi strategy order he ↦ by cases he
    simp only [Orchestrator.mainStep] at h
    split at h
    next pc =>
      have hlive := hopen (by rw [pc]; rintro ⟨⟩)
      have hs := hbegun (n := .validate) (by rw [pc]; rfl) (by decide)
      exact Option.some.inj h ▸ located_endPhase graph m hlive rfl rfl hs
    next => cases h
  | scored =>
    obtain rfl := hplanned fun multi strategy order he ↦ by cases he
    simp only [Orchestrator.mainStep] at h
    split at h
    next pc =>
      have hlive := hopen (by rw [pc]; rintro ⟨⟩)
      have hs := hbegun (n := .score) (by rw [pc]; rfl) (by decide)
      obtain ⟨coverage, hscore⟩ := _phase_score_eq registry record o
      have heq := Option.some.inj h
      rw [hscore, goto, if_pos graph] at heq
      subst heq
      exact .of_node rfl (Or.inl rfl) rfl hlive (fun hplans ↦ by cases hplans) (fun hearly ↦ by cases hearly)
        (fun _ ↦ hs) (hunstarted rfl)
    next => cases h
  | reported =>
    obtain rfl := hplanned fun multi strategy order he ↦ by cases he
    simp only [Orchestrator.mainStep] at h
    split at h
    · obtain rfl := Option.some.inj h
      refine .of_over (fun m hm ↦ ?_) (show AssessmentState.COMPLETED ∈ TERMINAL_STATES by decide) rfl
        (hunstarted rfl)
      rw [← Option.some.inj hm]
    · cases h
  | cancelled =>
    obtain rfl := hplanned fun multi strategy order he ↦ by cases he
    simp only [Orchestrator.mainStep] at h
    split at h
    · obtain rfl := Option.some.inj h
      refine .of_over (fun m hm ↦ ?_) (show AssessmentState.CANCELLED ∈ TERMINAL_STATES by decide) rfl
        (hunstarted rfl)
      rw [← Option.some.inj hm]
    · cases h
  | raise error =>
    obtain rfl := hplanned fun multi strategy order he ↦ by cases he
    simp only [Orchestrator.mainStep] at h
    split at h
    · cases h
    · have heq := Option.some.inj h
      rw [raise, if_pos graph] at heq
      subst heq
      exact .of_over (fun m hm ↦ by cases hm) (show AssessmentState.FAILED ∈ TERMINAL_STATES by decide) rfl
        (hunstarted rfl)
  | leave =>
    obtain rfl := hplanned fun multi strategy order he ↦ by cases he
    have hquiet : ∀ id, o'.claims id ≤ o.claims id := fun id ↦ hclaims id
    simp only [Orchestrator.mainStep] at h
    split at h
    next pc =>
      obtain ⟨connections, hclose⟩ := closeMain_eq o m
      have heq := Option.some.inj h
      rw [hclose] at heq
      subst heq
      refine hL.of_left (fun m₁ hm ↦ ?_) (fun m₁ hm ↦ ?_) rfl id hquiet id
      · rw [Option.some.inj (hm.symm.trans main)]
        exact pc
      · cases hm
    next => cases h

/-- **A step beside the run**: of an execution, an agent or the API. -/
theorem Located.beside (hL : Located planned o) (graph : settings.use_langgraph = true) {e : EngineEvent}
    (hmain : ∀ e', e ≠ .main e') (hrestart : e ≠ .restart)
    (first : ∀ reset, e = .start reset → o.assessment.state ≠ .FAILED)
    (hclaims : ∀ id, o'.claims id ≤ o.claims id + (taken registry record settings o e).count id)
    (h : step registry record settings o e = some o') : Located planned o' := by
  have hstarted : o.assessment.started = true → o'.assessment.started = true := started_of_step h
  have hsame : SameRun o o' → taken registry record settings o e = [] → Located planned o' := by
    intro same hnil
    rw [hnil] at hclaims
    exact hL.of_same same.main same.thread same.state (fun _ id ↦ hclaims id) hstarted
  cases e with
  | main e => exact absurd rfl (hmain e)
  | restart => exact absurd rfl hrestart
  | execution j e =>
    obtain ⟨x, -, h⟩ := Option.bind_eq_some_iff.1 h
    exact hsame (sameRun_executionStep h) rfl
  | task i e =>
    obtain ⟨t, -, h⟩ := Option.bind_eq_some_iff.1 h
    exact hsame (sameRun_taskStep h) rfl
  | triage => exact hsame (Option.some.inj h ▸ .refl o) rfl
  | ingest found => exact hsame (Option.some.inj h ▸ sameRun_addEndpoints o found) rfl
  | register skills => exact hsame (Option.some.inj h ▸ ⟨rfl, rfl, rfl, rfl⟩) rfl
  | start reset =>
    by_cases live : o.main.isSome = true
    · exact hsame (sameRun_of_live live (fun _ h ↦ by cases h) (by rintro ⟨⟩) h) rfl
    have idle : o.main = none := Option.not_isSome_iff_eq_none.1 live
    rw [← Option.some.inj h, start]
    split
    next hstate =>
      have hopen : o.assessment.state ∉ TERMINAL_STATES := by
        rw [hstate.resolve_right (first reset rfl)]
        decide
      cases reset with
      | false => exact hL.launch graph idle hopen
      | true =>
        have hreset : Located planned { o with assessment :=
            { o.assessment with cancel_requested := false, error := "" } } :=
          hL.of_same rfl rfl rfl (fun _ _ ↦ Nat.le_refl _) id
        exact hreset.launch graph idle hopen
    next => exact hL
  | cancel =>
    rw [← Option.some.inj h, cancel]
    split
    · exact hL
    · dsimp only
      split
      · exact hL.of_same rfl rfl rfl (fun _ _ ↦ Nat.le_refl _) id
      next live =>
        have idle : o.main = none := Option.not_isSome_iff_eq_none.1 live
        have hnone : ∀ m ∈ o.main, m.pc = .leaving := fun m hm ↦ by
          rw [idle] at hm
          cases hm
        exact hL.of_left hnone hnone rfl
          (absurd (show AssessmentState.CANCELLED ∈ TERMINAL_STATES by decide)) (fun _ ↦ Nat.le_refl _) id
  | cancel_all =>
    rw [← Option.some.inj h, cancel_all]
    split
    · exact hL
    · exact hL.of_same rfl rfl rfl (fun _ _ ↦ Nat.le_refl _) id
  | approve step_id user_id note =>
    rw [← Option.some.inj h, approve_step]
    split
    · dsimp only
      have hdecided : Located planned { o.decideStep step_id .approved fun d ↦
          { d with approved_by := some user_id, approval_note := some note } with
          approvals := o.approvals ++ [step_id] } :=
        hL.of_same rfl rfl rfl (fun _ _ ↦ Nat.le_refl _) id
      split
      next hover =>
        refine hdecided.of_same ?_ ?_ ?_ (fun hopen ↦ absurd hover hopen) ?_
        · exact (sameRun_start_approved_steps _ _).main
        · exact (sameRun_start_approved_steps _ _).thread
        · exact (sameRun_start_approved_steps _ _).state
        · rw [start_approved_steps]
          split <;> exact id
      next => exact hdecided.resume_if_parked graph
    · exact hL
  | deny step_id user_id note =>
    rw [← Option.some.inj h, deny_step]
    split
    · dsimp only
      have hdecided : Located planned { o.decideStep step_id .denied fun d ↦
          { d with denied_by := some user_id, denial_note := some note } with
          denials := o.denials ++ [step_id] } :=
        hL.of_same rfl rfl rfl (fun _ _ ↦ Nat.le_refl _) id
      exact hdecided.resume_if_parked graph
    · exact hL

/-- A step beside the run does not open what is over. -/
theorem open_of_beside {e : EngineEvent} (hmain : ∀ e', e ≠ .main e') (hrestart : e ≠ .restart)
    (h : step registry record settings o e = some o') (hopen : o'.assessment.state ∉ TERMINAL_STATES) :
    o.assessment.state ∉ TERMINAL_STATES := by
  have hlaunch : ∀ o₁ : Orchestrator,
      (start_assessment settings o₁).assessment.state = o₁.assessment.state := by
    intro o₁
    rw [start_assessment]
    split <;> rfl
  have hresume : ∀ o₁ : Orchestrator,
      (_resume_if_parked settings o₁).assessment.state = o₁.assessment.state := by
    intro o₁
    rw [_resume_if_parked]
    split
    · rfl
    split
    · exact hlaunch o₁
    · rfl
  cases e with
  | main e => exact absurd rfl (hmain e)
  | restart => exact absurd rfl hrestart
  | execution j e =>
    obtain ⟨x, -, h⟩ := Option.bind_eq_some_iff.1 h
    exact (sameRun_executionStep h).state ▸ hopen
  | task i e =>
    obtain ⟨t, -, h⟩ := Option.bind_eq_some_iff.1 h
    exact (sameRun_taskStep h).state ▸ hopen
  | triage => exact Option.some.inj h ▸ hopen
  | ingest found =>
    rw [← Option.some.inj h, (sameRun_addEndpoints o found).state] at hopen
    exact hopen
  | register skills =>
    rw [← Option.some.inj h] at hopen
    exact hopen
  | start reset =>
    rw [← Option.some.inj h, start] at hopen
    split at hopen
    · rw [hlaunch] at hopen
      cases reset <;> exact hopen
    · exact hopen
  | cancel =>
    rw [← Option.some.inj h, cancel] at hopen
    split at hopen
    · exact hopen
    next hlive => exact hlive
  | cancel_all =>
    rw [← Option.some.inj h, cancel_all] at hopen
    split at hopen
    · exact hopen
    next hlive => exact hlive
  | approve step_id user_id note =>
    rw [← Option.some.inj h, approve_step] at hopen
    split at hopen
    · dsimp only at hopen
      split at hopen
      · rw [(sameRun_start_approved_steps _ _).state] at hopen
        exact hopen
      · rw [hresume] at hopen
        exact hopen
    · exact hopen
  | deny step_id user_id note =>
    rw [← Option.some.inj h, deny_step] at hopen
    split at hopen
    · dsimp only at hopen
      rw [hresume] at hopen
      exact hopen
    · exact hopen

omit u in
/-- **The startup sweep**, after a crash. -/
theorem located_sweep (graph : settings.use_langgraph = true) (main : o.main = none)
    (claims : ∀ id, o.claims id = 0)
    (unplanned : o.assessment.state ∉ TERMINAL_STATES → ∀ n ∈ o.thread, n.plans = true → planned = [])
    (begun : ∀ n ∈ o.thread, n ≠ .authorize → o.assessment.started = true)
    (started : o.assessment.started = false → planned = []) :
    Located (if o.restarts settings then [] else planned) (resume_incomplete_assessments settings o) := by
  have hnone : ∀ m ∈ o.main, m.pc = .leaving := fun m hm ↦ by
    rw [main] at hm
    cases hm
  have hcond : (o.assessment.state ∈ TERMINAL_STATES ∨ o.assessment.started = false ∨ o.main.isSome = true) ↔
      o.assessment.state ∈ TERMINAL_STATES ∨ o.assessment.started = false := by
    rw [main]
    exact or_congr_right (or_iff_left Bool.false_ne_true)
  rw [resume_incomplete_assessments]
  by_cases hover : o.assessment.state ∈ TERMINAL_STATES ∨ o.assessment.started = false
  · have hno : o.restarts settings = false := by
      refine decide_eq_false fun hrestarts ↦ ?_
      rcases hover with hover | hover
      · exact hrestarts.1 hover
      · exact Bool.false_ne_true (hover.symm.trans hrestarts.2.1)
    rw [if_pos (hcond.2 hover), hno, if_neg Bool.false_ne_true]
    refine .of_away hnone unplanned (fun hopen ↦ ⟨fun _ ↦ ?_, claims⟩) begun started
    exact started (hover.resolve_left hopen)
  rw [if_neg fun h ↦ hover (hcond.1 h)]
  obtain ⟨hopen, hstarted⟩ := not_or.1 hover
  by_cases hthread : settings.use_langgraph = true ∧ o.thread.isSome = true
  · have hno : o.restarts settings = false := decide_eq_false fun hrestarts ↦ hrestarts.2.2 hthread
    rw [if_pos hthread, hno, if_neg Bool.false_ne_true]
    have hcrashed : Located planned o := by
      refine .of_away hnone unplanned (fun _ ↦ ⟨fun hnil ↦ ?_, claims⟩) begun started
      rw [hnil] at hthread
      cases hthread.2
    exact hcrashed.launch graph main hopen
  · have hyes : o.restarts settings = true := decide_eq_true ⟨hopen, by simpa using hstarted, hthread⟩
    have hnil : o.thread = none := by
      rw [← Option.not_isSome_iff_eq_none]
      exact fun hsome ↦ hthread ⟨graph, hsome⟩
    rw [if_neg hthread, hyes, if_pos rfl]
    have hempty : ∀ {n : Node}, n ∉ o.thread := fun hn ↦ by
      rw [hnil] at hn
      cases hn
    have hcleared : Located [] { o with
        steps := []
        endpoints := []
        coverage := []
        assessment := { o.assessment with state := .CREATED, cancel_requested := false } } :=
      .of_away hnone (fun _ n hn ↦ absurd hn hempty) (fun _ ↦ ⟨fun _ ↦ rfl, claims⟩)
        (fun n hn ↦ absurd hn hempty) fun _ ↦ rfl
    exact hcleared.launch graph main (show AssessmentState.CREATED ∉ TERMINAL_STATES by decide)

/-! ### What planning selects -/

omit u in
theorem pair_numbered (rows : List PlanStep) :
    (o.numbered rows).map PlanStep.pair = rows.map PlanStep.pair := by
  refine List.ext_getElem? fun i ↦ ?_
  rw [numbered, List.getElem?_map, List.getElem?_mapIdx, List.getElem?_map, Option.map_map]
  rfl

/-- No pair is planned twice at once. -/
theorem nodup_inserted (hC : o.Catalogued) (graph : settings.use_langgraph = true) (main : o.main = some m)
    {multi : Bool} {strategy : String} {order : Option (List String)}
    (names : Durable.DistinctNames registry record settings o multi) :
    ((o.numbered ((planOf registry record settings o m multi strategy order).map plannedRow)).map
      PlanStep.pair).Nodup := by
  have hperm : (planOf registry record settings o m multi strategy order).Perm
      (((offered settings o m).map _endpoint_view).flatMap fun ev ↦
        ((allChecks registry o._declaratives).filter fun check ↦
          Considers (effective record o.assessment) (_coerce_intensity record.intensity) multi ev check).map
            (plannedStep ev)) :=
    ((perm_rerank_plan _ _).trans (perm_apply_strategy _ _)).trans (List.perm_insertionSort _ _)
  have hoffered : (offered settings o m).Sublist o.endpoints := by
    rw [offered, if_pos graph, planEndpoints.eq_def]
    split
    · split
      · exact List.filter_sublist
      · exact List.Sublist.refl _
    · exact List.Sublist.refl _
  rw [pair_numbered, ((hperm.map plannedRow).map PlanStep.pair).nodup_iff, List.map_map, List.map_flatMap,
    List.flatMap_map, List.nodup_flatMap]
  constructor
  · intro e he
    have hnames := names m main e he
    have hpairs := hnames.map (f := fun name ↦ (e.id, name)) fun _ _ h ↦ (Prod.mk.inj h).2
    rw [List.map_map] at hpairs ⊢
    exact hpairs
  · -- the pairs of two endpoints differ in the endpoint
    have hids : ((offered settings o m).map (·.id)).Nodup := hC.nodup.sublist (hoffered.map _)
    refine (List.pairwise_map.1 hids).imp fun {e e'} hne ↦ ?_
    refine List.disjoint_left.2 fun p hp hp' ↦ hne ?_
    obtain ⟨s, hs, rfl⟩ := List.mem_map.1 hp
    obtain ⟨c, -, rfl⟩ := List.mem_map.1 hs
    obtain ⟨s', hs', heq⟩ := List.mem_map.1 hp'
    obtain ⟨c', -, rfl⟩ := List.mem_map.1 hs'
    exact (congrArg Prod.fst heq).symm

end

end Orchestrator

/-! ### The invariant -/

namespace Durable

/-- **The invariant**, but for the position of a run that is over. -/
structure Consistent (d : Durable) : Prop where
  tallied : d.engine.Tallied d.completed
  catalogued : d.engine.Catalogued
  located : d.engine.Located d.planned
  rows : ((d.engine.steps.map Orchestrator.entry).filter fun x ↦ (d.planned.map (·.id)).contains x.1) =
    d.planned.map Orchestrator.entry
  below : ∀ s ∈ d.planned, s.id < d.engine.nextId
  pairs : (d.planned.map PlanStep.pair).Nodup
  stale : d.engine.assessment.state ∉ TERMINAL_STATES → ∀ n ∈ d.saved.1, n.plans = true →
    d.planned = [] ∨ d.Window
  begun : ∀ n ∈ d.saved.1, n ≠ .authorize → d.engine.assessment.started = true

/-- **The invariant**: without a task the position is stored. -/
structure Sound (d : Durable) : Prop extends Consistent d where
  synced : d.engine.main = none → d.Synced

variable {d d' : Durable}

/-- The rows of planning are in the table once, and no check of them ran to a result twice. -/
theorem Consistent.unique (hS : d.Consistent) : d.Unique := by
  refine ⟨fun p hp ↦ ?_, fun s _ ↦ ?_⟩
  · have hstems : (d.stems p).length = (d.planned.map PlanStep.pair).count p := by
      have hcount : ∀ l : List PlanStep, (l.filter (·.pair == p)).length =
          (l.map Orchestrator.entry).countP fun x ↦ (x.2.1, x.2.2.2) == p := by
        intro l
        rw [List.countP_map, List.countP_eq_length_filter]
        rfl
      have hfilter : (d.engine.steps.filter fun s ↦ (d.planned.map (·.id)).contains s.id).map
          Orchestrator.entry = d.planned.map Orchestrator.entry := by
        rw [← hS.rows, List.filter_map]
        rfl
      have hsplit : d.stems p =
          (d.engine.steps.filter fun s ↦ (d.planned.map (·.id)).contains s.id).filter (·.pair == p) := by
        rw [stems, List.filter_filter]
        exact List.filter_congr fun s _ ↦ Bool.and_comm ..
      rw [hsplit, hcount, hfilter, ← hcount, List.count, List.countP_map, List.countP_eq_length_filter]
      rfl
    rw [hstems]
    exact List.count_eq_one_of_mem hS.pairs hp
  · have hle := hS.tallied.once s.id
    omega

/-- The task of the run is there until its position is stored. -/
theorem Consistent.keepTask (hS : d.Consistent) : (keepTask d).Sound := by
  rw [Durable.keepTask]
  split
  next h =>
    obtain ⟨main, -⟩ := h
    have hclaims : ∀ id, (d.engine.setMain { pc := .leaving }).claims id = d.engine.claims id := by
      intro id
      rw [Orchestrator.claims, Orchestrator.claims, Orchestrator.loggedIn, Orchestrator.loggedIn,
        Orchestrator.retries, Orchestrator.retries, main]
      rfl
    have hnone : ∀ m ∈ d.engine.main, m.pc = .leaving := fun m hm ↦ by
      rw [main] at hm
      cases hm
    refine ⟨⟨⟨hS.tallied.nodup, hS.tallied.below, fun i hi ↦ (by cases hi), fun id ↦ ?_, fun id hid ↦ ?_,
      fun s hs hstatus ↦ ?_, hS.tallied.approved⟩, ⟨hS.catalogued.below, hS.catalogued.nodup⟩,
      hS.located.of_left hnone (fun m hm ↦ ?_) rfl id (fun id ↦ (hclaims id).le) id, hS.rows, hS.below,
      hS.pairs, hS.stale, hS.begun⟩, fun hno ↦ by cases hno⟩
    · rw [hclaims]
      exact hS.tallied.once id
    · rw [hclaims]
      exact hS.tallied.fresh id hid
    · rw [hclaims]
      exact hS.tallied.waiting s hs hstatus
    · rw [← Option.some.inj hm]
  next h => exact ⟨hS, fun main ↦ not_not.1 fun hne ↦ h ⟨main, hne⟩⟩

section

variable {registry : _Registry} {record : AuthorizationRecord} {settings : Settings}
variable {o' : Orchestrator} [u : UnicodeTables]

omit u in
/-- Where the position is stored, what is stored is what the graph has pending. -/
theorem thread_of_saved (synced : d.Synced) {n : Node} (hn : n ∈ d.saved.1) : d.engine.thread = some n := by
  rw [synced, position] at hn
  split at hn
  · cases hn
  · exact hn

omit u in
/-- Then the invariant on places speaks of it. -/
theorem unplanned_of_synced (hL : d.engine.Located d.planned) (synced : d.Synced)
    (hopen : d.engine.assessment.state ∉ TERMINAL_STATES) {n : Node} (hn : n ∈ d.saved.1)
    (hplans : n.plans = true) : d.planned = [] :=
  hL.unplanned hopen n (thread_of_saved synced hn) hplans

omit u in
/-- A step of the run that is blocked does not happen. -/
theorem synced_of_main {e : MainEvent} (free : ¬d.Blocked (.main e)) (hraise : ∀ error, e ≠ .raise error) :
    d.Synced := by
  cases e with
  | raise error => exact absurd rfl (hraise error)
  | _ => exact not_not.1 free

/-- A step of the run that leaves it open was made while it was. -/
theorem open_of_main {o : Orchestrator} {planned : List PlanStep} {m : Main} {e : MainEvent}
    (hL : o.Located planned) (main : o.main = some m)
    (h : Orchestrator.mainStep registry record settings o m e = some o')
    (hopen : o'.assessment.state ∉ TERMINAL_STATES) : o.assessment.state ∉ TERMINAL_STATES := by
  by_cases pc : m.pc = .leaving
  · cases e with
    | leave =>
      simp only [Orchestrator.mainStep] at h
      obtain ⟨connections, hclose⟩ := Orchestrator.closeMain_eq o m
      rw [if_pos pc, hclose] at h
      rw [← Option.some.inj h] at hopen
      exact hopen
    | _ => simp [Orchestrator.mainStep, pc, Orchestrator.MainPc.sends] at h
  · exact hL.live m main pc

/-- What planning has inserted, after a step. -/
theorem rows_engine (hS : d.Consistent) (graph : settings.use_langgraph = true) {e : EngineEvent}
    (hrestart : e ≠ .restart) (heeds : Heeds registry record settings d (.engine e))
    (h : Orchestrator.step registry record settings d.engine e = some o') :
    ((o'.steps.map Orchestrator.entry).filter fun x ↦
        ((d.planned ++ plannedRows registry record settings d.engine e).map (·.id)).contains x.1) =
          (d.planned ++ plannedRows registry record settings d.engine e).map Orchestrator.entry ∧
      (∀ s ∈ d.planned ++ plannedRows registry record settings d.engine e, s.id < o'.nextId) ∧
      ((d.planned ++ plannedRows registry record settings d.engine e).map PlanStep.pair).Nodup := by
  obtain ⟨hnodup, hids⟩ := Orchestrator.inserted_ids registry record settings d.engine e
  obtain ⟨hentries, hnext⟩ : o'.steps.map Orchestrator.entry =
      (d.engine.steps ++ Orchestrator.inserted registry record settings d.engine e).map Orchestrator.entry ∧
        d.engine.nextId + (Orchestrator.inserted registry record settings d.engine e).length ≤ o'.nextId := by
    cases Orchestrator.rows_of_step h with
    | stored entries nextId => exact ⟨entries, nextId⟩
    | cleared restart => exact absurd restart hrestart
  -- neither the old rows nor the new ones have an id of the others
  have hkeep : ∀ {rows : List PlanStep} {ids : List ℕ}, (∀ s ∈ rows, s.id ∈ ids) →
      ((rows.map Orchestrator.entry).filter fun x ↦ ids.contains x.1) = rows.map Orchestrator.entry := by
    intro rows ids hmem
    refine List.filter_eq_self.2 fun x hx ↦ ?_
    obtain ⟨s, hs, rfl⟩ := List.mem_map.1 hx
    exact List.contains_iff_mem.2 (hmem s hs)
  have hdrop : ∀ {rows : List PlanStep} {ids : List ℕ}, (∀ s ∈ rows, s.id ∉ ids) →
      ((rows.map Orchestrator.entry).filter fun x ↦ ids.contains x.1) = [] := by
    intro rows ids hmem
    refine List.filter_eq_nil_iff.2 fun x hx ↦ ?_
    obtain ⟨s, hs, rfl⟩ := List.mem_map.1 hx
    exact fun hcontains ↦ hmem s hs (List.contains_iff_mem.1 hcontains)
  rw [hentries.trans List.map_append, List.filter_append]
  cases hplanning : e.planning with
  | none =>
    have hnone : plannedRows registry record settings d.engine e = [] := by
      rw [plannedRows, hplanning]
      rfl
    rw [hnone, List.append_nil]
    refine ⟨?_, fun s hs ↦ (hS.below s hs).trans_le ((Nat.le_add_right _ _).trans hnext), hS.pairs⟩
    rw [hS.rows, hdrop, List.append_nil]
    intro s hs hmem
    obtain ⟨r, hr, hid⟩ := List.mem_map.1 hmem
    have hlt := hS.below r hr
    have hle := (hids s hs).1
    omega
  | some multi =>
    have hrows : plannedRows registry record settings d.engine e =
        Orchestrator.inserted registry record settings d.engine e := by
      rw [plannedRows, hplanning]
      rfl
    obtain ⟨strategy, order, rfl⟩ : ∃ strategy order, e = .main (.plan multi strategy order) := by
      rw [EngineEvent.planning.eq_def] at hplanning
      split at hplanning
      · obtain rfl := Option.some.inj hplanning
        exact ⟨_, _, rfl⟩
      · cases hplanning
    obtain ⟨m, main, h⟩ := Option.bind_eq_some_iff.1 h
    simp only [Orchestrator.mainStep] at h
    split at h
    next pc =>
      have hn : m.pc.node = some .plan := by rw [pc]; rfl
      have hlive := hS.located.live m main (by rw [pc]; rintro ⟨⟩)
      have hnil : d.planned = [] := hS.located.unplanned hlive _ (hS.located.node m main _ hn) rfl
      rw [hrows, hnil, List.nil_append]
      refine ⟨?_, fun s hs ↦ ((hids s hs).2).trans_le hnext, ?_⟩
      · rw [hkeep fun s hs ↦ List.mem_map.2 ⟨s, hs, rfl⟩, hdrop, List.nil_append]
        intro s hs hmem
        obtain ⟨r, hr, hid⟩ := List.mem_map.1 hmem
        have hlt := hS.tallied.below s hs
        have hle := (hids r hr).1
        omega
      · rw [Orchestrator.inserted, main]
        exact Orchestrator.nodup_inserted hS.catalogued graph main heeds
    next => cases h

/-- What is stored, after a step. -/
theorem stale_engine (hS : d.Sound) (graph : settings.use_langgraph = true) {e : EngineEvent}
    (hrestart : e ≠ .restart) (free : ¬d.Blocked e)
    (h : Orchestrator.step registry record settings d.engine e = some o')
    (hopen : o'.assessment.state ∉ TERMINAL_STATES) {n : Node} (hn : n ∈ d.saved.1) (hplans : n.plans = true) :
    d.planned ++ plannedRows registry record settings d.engine e = [] ∨
      d.saved.1 = some .plan ∧ o'.thread = some .policy := by
  have hquiet : e.planning = none → d.planned = [] →
      d.planned ++ plannedRows registry record settings d.engine e = [] := by
    intro hplanning hnil
    rw [plannedRows, hplanning, hnil]
    rfl
  by_cases hmain : ∃ e', e = .main e'
  · obtain ⟨e, rfl⟩ := hmain
    obtain ⟨m, main, h⟩ := Option.bind_eq_some_iff.1 h
    by_cases hraise : ∃ error, e = .raise error
    · -- a run that fails is over
      obtain ⟨error, rfl⟩ := hraise
      simp only [Orchestrator.mainStep] at h
      split at h
      · cases h
      · rw [← Option.some.inj h, Orchestrator.raise, if_pos graph] at hopen
        exact absurd (show AssessmentState.FAILED ∈ TERMINAL_STATES by decide) hopen
    have synced := synced_of_main free fun error he ↦ hraise ⟨error, he⟩
    by_cases hplan : ∃ multi strategy order, e = .plan multi strategy order
    · obtain ⟨multi, strategy, order, rfl⟩ := hplan
      simp only [Orchestrator.mainStep] at h
      split at h
      next pc =>
        have hnode := hS.located.node m main .plan (by rw [pc]; rfl)
        have hposition : position d.engine = (d.engine.thread, d.engine.interrupted) := by
          rw [position, main, Option.any_some, pc]
          rfl
        refine Or.inr ⟨?_, ?_⟩
        · rw [synced, hposition]
          exact hnode
        · rw [← Option.some.inj h, Orchestrator._phase_planning, Orchestrator.goto, if_pos graph]
      next => cases h
    · refine Or.inl (hquiet ?_ ?_)
      · rw [EngineEvent.planning.eq_def]
        split
        next heq => exact absurd ⟨_, _, _, EngineEvent.main.inj heq⟩ hplan
        · rfl
      · exact unplanned_of_synced hS.located synced (open_of_main hS.located main h hopen) hn hplans
  · have hbeside : ∀ e', e ≠ .main e' := fun e' he ↦ hmain ⟨e', he⟩
    have hnone : e.planning = none := by
      rw [EngineEvent.planning.eq_def]
      split
      · exact absurd rfl (hbeside _)
      · rfl
    have hbefore := Orchestrator.open_of_beside hbeside hrestart h hopen
    by_cases live : d.engine.main.isSome = true
    · -- beside a live run the position stays, and so does the window
      have same := Orchestrator.sameRun_of_live live hbeside hrestart h
      exact (hS.stale hbefore n hn hplans).imp (hquiet hnone) fun hW ↦ ⟨hW.1, same.thread.trans hW.2⟩
    · have synced := hS.synced (Option.not_isSome_iff_eq_none.1 live)
      exact Or.inl (hquiet hnone (unplanned_of_synced hS.located synced hbefore hn hplans))

/-- **A step of the engine.** -/
theorem Sound.engine (hS : d.Sound) (graph : settings.use_langgraph = true) {e : EngineEvent}
    (hrestart : e ≠ .restart) (free : ¬d.Blocked e) (heeds : Heeds registry record settings d (.engine e))
    (h : Orchestrator.step registry record settings d.engine e = some o') :
    Consistent { d with
      engine := o'
      planned := d.planned ++ plannedRows registry record settings d.engine e
      completed := d.completed ++ d.engine.completions e } := by
  have hflow := Orchestrator.flow_of_step hS.tallied.range hS.tallied.nodup h
  have hclaims : ∀ id, o'.claims id ≤
      d.engine.claims id + (Orchestrator.taken registry record settings d.engine e).count id :=
    fun id ↦ (Nat.le_add_right _ _).trans (hflow.claims id)
  have hstarted : d.engine.assessment.started = true → o'.assessment.started = true :=
    Orchestrator.started_of_step h
  have hidle : ∀ elects_stop, e = .main (.coordinate elects_stop) → ∀ id, d.engine.claims id = 0 := by
    rintro elects_stop rfl
    obtain ⟨m, main, h⟩ := Option.bind_eq_some_iff.1 h
    simp only [Orchestrator.mainStep] at h
    split at h
    next pc => exact hS.located.idle m main .execute (by rw [pc]; rfl) rfl
    next => cases h
  have hlocated : o'.Located (d.planned ++ plannedRows registry record settings d.engine e) := by
    by_cases hmain : ∃ e', e = .main e'
    · obtain ⟨e, rfl⟩ := hmain
      obtain ⟨m, main, h⟩ := Option.bind_eq_some_iff.1 h
      refine hS.located.mainStep graph main (fun hplan ↦ ?_) hclaims hstarted h
      have hnone : (EngineEvent.main e).planning = none := by
        rw [EngineEvent.planning.eq_def]
        split
        next heq => exact absurd (EngineEvent.main.inj heq) (hplan _ _ _)
        · rfl
      rw [plannedRows, hnone]
      exact List.append_nil _
    · have hbeside : ∀ e', e ≠ .main e' := fun e' he ↦ hmain ⟨e', he⟩
      have hnone : plannedRows registry record settings d.engine e = [] := by
        rw [plannedRows, EngineEvent.planning.eq_def]
        split
        · exact absurd rfl (hbeside _)
        · rfl
      rw [hnone, List.append_nil]
      refine hS.located.beside graph hbeside hrestart (fun reset he ↦ ?_) hclaims h
      subst he
      exact heeds
  obtain ⟨hrows, hbelow, hpairs⟩ := rows_engine hS.toConsistent graph hrestart heeds h
  exact {
    tallied := hS.tallied.step graph hidle h
    catalogued := CoverageLedger.catalogued_of_step hS.catalogued h
    located := hlocated
    rows := hrows
    below := hbelow
    pairs := hpairs
    stale := fun hopen n hn hplans ↦ stale_engine hS graph hrestart free h hopen hn hplans
    begun := fun n hn hne ↦ hstarted (hS.begun n hn hne) }

/-- **A crash, and the startup sweep.** -/
theorem Sound.restart (hS : d.Sound) (registry : _Registry) (record : AuthorizationRecord)
    (graph : settings.use_langgraph = true) (outside : ¬d.Window) :
    Sound { d with
      engine := Orchestrator.resume_incomplete_assessments settings d.reloaded.crash
      planned := if d.reloaded.restarts settings then [] else d.planned } := by
  have hstep : Orchestrator.step registry record settings d.reloaded .restart =
      some (Orchestrator.resume_incomplete_assessments settings d.reloaded.crash) := rfl
  have htallied : d.reloaded.Tallied d.completed :=
    ⟨hS.tallied.nodup, hS.tallied.below, hS.tallied.range, hS.tallied.once, hS.tallied.fresh,
      hS.tallied.waiting, hS.tallied.approved⟩
  have hswept := htallied.step graph (fun _ he ↦ by cases he) hstep
  rw [Orchestrator.completions_of_none rfl, List.append_nil] at hswept
  have hunplanned : d.engine.assessment.state ∉ TERMINAL_STATES → ∀ n ∈ d.saved.1, n.plans = true →
      d.planned = [] := fun hopen n hn hplans ↦ (hS.stale hopen n hn hplans).resolve_right outside
  obtain ⟨hnext, hsteps⟩ := Orchestrator.steps_restart settings d.reloaded
  have hlaunched : ∀ o₁ : Orchestrator, (Orchestrator.start_assessment settings o₁).main ≠ none := by
    intro o₁ hnone
    rw [Orchestrator.start_assessment] at hnone
    split at hnone
    next hsome =>
      rw [hnone] at hsome
      cases hsome
    · cases hnone
  refine ⟨{
    tallied := hswept
    catalogued := CoverageLedger.catalogued_of_step
      (o := d.reloaded) ⟨hS.catalogued.below, hS.catalogued.nodup⟩ hstep
    located := Orchestrator.located_sweep (o := d.reloaded.crash) graph rfl (Orchestrator.claims_crash _)
      hunplanned hS.begun hS.located.started
    rows := ?_
    below := fun s hs ↦ ?_
    pairs := ?_
    stale := fun hopen n hn hplans ↦ Or.inl ?_
    begun := fun n hn hne ↦ Orchestrator.started_of_step hstep (hS.begun n hn hne) }, fun hmain ↦ ?_⟩
  · dsimp only
    rw [hsteps]
    split
    · rfl
    · exact hS.rows
  · dsimp only at hs ⊢
    rw [hnext]
    split at hs
    · cases hs
    · exact hS.below s hs
  · dsimp only
    split
    · exact List.nodup_nil
    · exact hS.pairs
  · dsimp only at hopen ⊢
    split
    · rfl
    · refine hunplanned (fun hover ↦ hopen ?_) n hn hplans
      have hcrashed : d.reloaded.crash.assessment.state ∈ TERMINAL_STATES := hover
      rw [Orchestrator.resume_incomplete_assessments, if_pos (Or.inl hcrashed)]
      exact hcrashed
  · dsimp only at hmain
    rw [Orchestrator.resume_incomplete_assessments] at hmain
    split at hmain
    next hover =>
      rw [Synced, position]
      dsimp only
      rw [Orchestrator.resume_incomplete_assessments, if_pos hover]
      rfl
    split at hmain
    · exact absurd hmain (hlaunched _)
    · exact absurd hmain (hlaunched _)

/-- A phase freezes the skills. -/
theorem Sound.freeze (hS : d.Sound) : Sound { d with engine := d.engine.freeze } := by
  have hstarted : d.engine.freeze.assessment.started = d.engine.assessment.started := by
    rw [Orchestrator.freeze]
    split <;> rfl
  have hlocated : d.engine.freeze.Located d.planned := by
    refine hS.located.of_same ?_ ?_ (Orchestrator.freeze_state _) (fun _ id ↦ Nat.le_of_eq ?_) hstarted.ge
    · rw [Orchestrator.freeze_eq]
    · rw [Orchestrator.freeze_eq]
    · rw [Orchestrator.freeze_eq]
      rfl
  rw [Orchestrator.freeze_eq] at hlocated ⊢
  exact ⟨{
    tallied := ⟨hS.tallied.nodup, hS.tallied.below, hS.tallied.range, hS.tallied.once, hS.tallied.fresh,
      hS.tallied.waiting, hS.tallied.approved⟩
    catalogued := ⟨hS.catalogued.below, hS.catalogued.nodup⟩
    located := hlocated
    rows := hS.rows
    below := hS.below
    pairs := hS.pairs
    stale := fun hopen n hn hplans ↦ hS.stale (Orchestrator.freeze_state d.engine ▸ hopen) n hn hplans
    begun := fun n hn hne ↦ hstarted.trans (hS.begun n hn hne) }, hS.synced⟩

omit u in
/-- The position is stored. -/
theorem Sound.checkpoint (hS : d.Sound) : Sound { d with saved := position d.engine } := by
  have hthread : ∀ n ∈ (position d.engine).1, d.engine.thread = some n := fun n hn ↦
    thread_of_saved (d := { d with saved := position d.engine }) rfl hn
  exact ⟨{
    tallied := hS.tallied
    catalogued := hS.catalogued
    located := hS.located
    rows := hS.rows
    below := hS.below
    pairs := hS.pairs
    stale := fun hopen n hn hplans ↦ Or.inl (hS.located.unplanned hopen n (hthread n hn) hplans)
    begun := fun n hn hne ↦ hS.located.begun n (hthread n hn) hne }, fun _ ↦ rfl⟩

/-- **The step lemma.** -/
theorem Sound.step (hS : d.Sound) (graph : settings.use_langgraph = true) {e : DurableEvent}
    (heeds : Heeds registry record settings d e) (h : step registry record settings d e = some d') :
    d'.Sound := by
  cases e with
  | engine e =>
    by_cases hrestart : e = .restart
    · subst hrestart
      exact Option.some.inj h ▸ hS.restart registry record graph heeds
    · rw [Durable.step.eq_def] at h
      split at h
      next heq => exact absurd (DurableEvent.engine.inj heq) hrestart
      next heq =>
        obtain rfl := DurableEvent.engine.inj heq
        split at h
        · cases h
        next free =>
          obtain ⟨o', hengine, rfl⟩ := Option.map_eq_some_iff.1 h
          exact (hS.engine graph hrestart free heeds hengine).keepTask
      next heq => cases heq
      next heq => cases heq
  | freeze =>
    rw [Durable.step] at h
    split at h
    · exact Option.some.inj h ▸ hS.freeze
    · cases h
  | checkpoint =>
    rw [Durable.step] at h
    split at h
    · exact Option.some.inj h ▸ hS.checkpoint
    · cases h

omit u in
theorem sound_created (org_id : ℕ) (requested : List String) (incremental : Bool) (prev : Option (List Text)) :
    (created org_id requested incremental prev).Sound := by
  refine ⟨⟨⟨List.nodup_nil, fun s hs ↦ (by cases hs), fun i hi ↦ (by cases hi), fun id ↦ Nat.zero_le _,
    fun _ _ ↦ rfl, fun s hs ↦ (by cases hs), fun s hs ↦ (by cases hs)⟩, ⟨fun e he ↦ (by cases he),
    List.nodup_nil⟩, ?_, rfl, fun s hs ↦ (by cases hs), List.nodup_nil, fun _ n hn ↦ (by cases hn),
    fun n hn ↦ (by cases hn)⟩, fun _ ↦ rfl⟩
  exact .of_away (fun m hm ↦ by cases hm) (fun _ n hn ↦ by cases hn) (fun _ ↦ ⟨fun _ ↦ rfl, fun _ ↦ rfl⟩)
    (fun n hn ↦ by cases hn) fun _ ↦ rfl

/-- **Plan steps stay unique** over any number of crashes: in a run of the graph in which no process dies
between the commit of planning and the checkpoint of its node, no run that failed is started again, and the
checks selected for an endpoint have distinct names. -/
theorem unique_of_heeds (graph : settings.use_langgraph = true) {org_id : ℕ} {requested : List String}
    {incremental : Bool} {prev : Option (List Text)} {es : List DurableEvent}
    (heeds : Machine.Along (step registry record settings) (Heeds registry record settings)
      (created org_id requested incremental prev) es)
    (h : Machine.run (step registry record settings) (created org_id requested incremental prev) es = some d) :
    d.Unique := by
  have hsound : d.Sound := Machine.inv_of_run_along (fun hS hC hs ↦ Sound.step hS graph hC hs) heeds h
    (sound_created org_id requested incremental prev)
  exact hsound.toConsistent.unique

end

end Durable

/-! ### Sample runs -/

/-- From here the run is in the graph. -/
def graphSettings : Settings := { use_langgraph := true }

/-- A step of the run, and the checkpoint of its node. -/
def stored (e : MainEvent) : List DurableEvent := [.engine (.main e), .checkpoint]

/-- A run up to the entrance of planning, with the checkpoint before it. -/
def untilPlanning : List DurableEvent :=
  [.engine (.start true), .checkpoint] ++ stored (.enter 0) ++
    [.engine (.main (.enter 0))] ++ stored (.discovered [sampleEndpoint]) ++ [.engine (.main (.enter 0))]

/-- Planning commits its rows. -/
def commitsPlan : DurableEvent := .engine (.main (.plan false "balanced" none))

/-- The process dies, and the next one runs planning again. -/
def plansAgain : List DurableEvent := [.engine .restart, .engine (.main (.enter 0)), commitsPlan]

/-- Policy, and the start of these many agents. -/
def untilDispatched : List DurableEvent :=
  [.checkpoint, .engine (.main (.enter 0))] ++ stored .policy ++
    [.engine (.main (.enter 0)), .engine (.main (.coordinate false)), .engine (.main .dispatch)]

/-- An agent runs its check to the end, and its result is persisted. -/
def completes (i : ℕ) : List DurableEvent :=
  (runAgent i).map .engine ++ [.engine (.main (.deliver i false))]

/-- From the last result to the end of the run. -/
def untilCompleted : List DurableEvent :=
  [.engine (.main .drained), .engine (.main (.retry false))] ++
    stored (.replan { classes := ["security_headers"] }) ++ [.engine (.main (.enter 0))] ++
    stored .validated ++ [.engine (.main (.enter 0))] ++ stored .scored ++ [.engine (.main (.enter 0))] ++
    stored .reported ++ [.engine (.main .leave)]

section

attribute [local instance] asciiTables

/-- A crash between the commit of planning and the checkpoint of its node: the completed run has two steps
for the one endpoint and check. -/
theorem not_unique_after_crash :
    ∃ d, Machine.run
        (Durable.step builtinRegistry (scanRecord ["security_headers"]) graphSettings)
        (.created 1 [] false none)
        (untilPlanning ++ [commitsPlan] ++ plansAgain ++ untilDispatched ++ completes 0 ++ completes 1 ++
          untilCompleted) = some d ∧
      d.engine.assessment.state = .COMPLETED ∧ (d.stems (0, "headers.security")).length = 2 ∧
        ¬d.Unique := by
  decide +kernel

/-- A crash as soon as the checkpoint is stored. -/
theorem unique_of_heeds_crash :
    ∃ d, Machine.run
        (Durable.step builtinRegistry (scanRecord ["security_headers"]) graphSettings)
        (.created 1 [] false none)
        (untilPlanning ++ [commitsPlan, .checkpoint, .engine .restart] ++ untilDispatched ++ completes 0 ++
          untilCompleted) = some d ∧
      d.Unique ∧ d.engine.assessment.state = .COMPLETED := by
  have hrun : ∃ d, Machine.run
        (Durable.step builtinRegistry (scanRecord ["security_headers"]) graphSettings)
        (.created 1 [] false none)
        (untilPlanning ++ [commitsPlan, .checkpoint, .engine .restart] ++ untilDispatched ++ completes 0 ++
          untilCompleted) = some d ∧ d.engine.assessment.state = .COMPLETED := by
    decide +kernel
  obtain ⟨d, hd, hstate⟩ := hrun
  exact ⟨d, hd, Durable.unique_of_heeds rfl (by decide +kernel) hd, hstate⟩

end

end Sentrik
