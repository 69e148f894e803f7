import Sentrik.Orchestration.StateTrace

/-!
# Honouring cancellation

What a request of cancellation meets: the flag, the state, and where the task of the run is. Between
reading the flag and writing the state of the next phase the task awaits several times (the checkpoint,
the hooks, the guard), and a request may land in between; `Driver` keeps these two steps apart, where
the orchestrator takes them as one. `driver_of_step` connects the two: what the orchestrator does in a
step, the driver can do in a few.

**The flag is not read everywhere.** The inline driver reads it after each of the first five phases and
not after validation and scoring; neither driver reads it after the report. A request that lands there
is accepted, and the run goes on to `COMPLETED`. The graph reads the flag before every node.
-/

namespace Sentrik

/-- The phase after this one. -/
def Node.next : Node → Option Node
  | authorize => some discover
  | discover => some plan
  | plan => some policy
  | policy => some execute
  | execute => some validate
  | validate => some score
  | score => some report
  | report => none

/-- Where the task of a run is, as far as cancellation is concerned. -/
inductive DriverPc
  /-- The flag is read next. -/
  | reading (n : Node)
  /-- The phase has begun; its state is written next. -/
  | starting (n : Node)
  | inside (n : Node)
  /-- The flag was seen; `CANCELLED` is written next. -/
  | finishing
  | leaving
  /-- There is no task. -/
  | ended
  deriving DecidableEq, Repr

structure Driver where
  state : AssessmentState := .CREATED
  cancel_requested : Bool := false
  started : Bool := false
  pc : DriverPc := .ended
  /-- The node the checkpointer has pending. -/
  thread : Option Node := none
  deriving DecidableEq, Repr

inductive DriverEvent
  | read
  | write
  | finish
  /-- The graph parks on held steps. -/
  | park
  /-- The authorization is not usable. -/
  | refuse
  | raise
  /-- The graph routes to its end. -/
  | route
  | cancelled
  | leave
  | start (reset : Bool)
  /-- The last held step of a parked run is decided. -/
  | resume
  | cancel
  | cancel_all
  /-- The process dies and comes up again. -/
  | restart
  deriving DecidableEq, Repr

/-- What brings a run forward, and neither fails nor parks it. -/
def DriverEvent.advances : DriverEvent → Bool
  | read | write | finish | route | cancelled | leave | resume => true
  | _ => false

namespace Driver

section

variable (settings : Settings)

/-- The first place of a phase. -/
def entrance (n : Node) : DriverPc :=
  if n.checksCancel settings then .reading n else .starting n

/-- Go to a phase. The graph stores its position first. -/
def proceed (d : Driver) (n : Node) : Driver :=
  { d with
    pc := entrance settings n
    thread := if settings.use_langgraph then some n else none }

/-- Launch the run, unless it is running. -/
def launch (d : Driver) : Driver :=
  if d.pc = .ended then
    d.proceed settings (if settings.use_langgraph then d.thread.getD .authorize else .authorize)
  else d

/-- The startup sweep, when no task is left. -/
def sweep (d : Driver) : Driver :=
  if d.state ∈ TERMINAL_STATES ∨ d.started = false then d
  else if settings.use_langgraph ∧ d.thread.isSome then d.launch settings
  else { d with state := .CREATED, cancel_requested := false }.launch settings

def step (d : Driver) : DriverEvent → Option Driver
  | .read =>
    match d.pc with
    | .reading n => some { d with pc := if d.cancel_requested then .finishing else .starting n }
    | _ => none
  | .write =>
    match d.pc with
    | .starting n =>
      some { d with state := n.state, started := n == .authorize || d.started, pc := .inside n }
    | _ => none
  | .finish =>
    match d.pc with
    | .inside n =>
      match n.next with
      | some next => some (d.proceed settings next)
      | none => some { d with state := .COMPLETED, pc := .leaving, thread := none }
    | _ => none
  | .park =>
    if d.pc = .inside .policy ∧ settings.use_langgraph then some { d with pc := .leaving } else none
  | .refuse =>
    if settings.use_langgraph then
      if d.pc = .inside .authorize then some { d with pc := .leaving, thread := none } else none
    else if d.pc = .starting .discover then some { d with state := .FAILED, pc := .leaving }
    else none
  | .raise =>
    if d.pc = .leaving ∨ d.pc = .ended then none
    else
      some { d with
        state := .FAILED
        pc := .leaving
        thread := if settings.use_langgraph then none else d.thread }
  | .route => if d.pc = .finishing then some { d with thread := none } else none
  | .cancelled =>
    if d.pc = .finishing ∧ d.thread = none then some { d with state := .CANCELLED, pc := .leaving }
    else none
  | .leave => if d.pc = .leaving then some { d with pc := .ended } else none
  | .start reset =>
    if d.state = .CREATED ∨ d.state = .FAILED then
      some ({ d with cancel_requested := d.cancel_requested && !reset }.launch settings)
    else some d
  | .resume =>
    if d.pc = .ended ∧ d.state = .POLICY_CHECK then some (d.launch settings) else none
  | .cancel =>
    if d.state ∈ TERMINAL_STATES then some d
    else
      some { d with
        cancel_requested := true
        state := if d.pc = .ended then .CANCELLED else d.state }
  | .cancel_all =>
    if d.state ∈ TERMINAL_STATES then some d else some { d with cancel_requested := true }
  | .restart => some ({ d with pc := .ended }.sweep settings)

/-- The states of the phases a step enters. Authorizing is none of them. -/
def enters (d : Driver) (e : DriverEvent) (_ : Driver) : List AssessmentState :=
  match e with
  | .write =>
    match d.pc with
    | .starting n => if n = .authorize then [] else [n.state]
    | _ => []
  | _ => []

/-- The graph is parked in the policy phase. -/
def Parked (d : Driver) : Prop := d.state = .POLICY_CHECK ∧ d.thread = some .policy

/-- The run can still end, and ends in `CANCELLED`. -/
def Finishes (d : Driver) : Prop :=
  ∃ es d', (∀ e ∈ es, e.advances = true) ∧ Machine.run (step settings) d es = some d' ∧
    d'.pc = .ended ∧ d'.state = .CANCELLED

/-- **Cancellation is honoured** since a request: no phase was entered, and the run has not completed;
when it is over, it is cancelled, or parked until somebody decides; and it ends in `CANCELLED`. -/
structure Honoured (d : Driver) (entered : List AssessmentState) : Prop where
  silent : entered = []
  uncompleted : d.state ≠ .COMPLETED
  outcome : d.pc = .ended → d.state = .CANCELLED ∨ d.Parked
  finishes : d.Finishes settings

/-! ### The condition -/

/-- Whether the flag is read before a phase is entered or the run is over; a parked run reads it when it
goes on. -/
def HeedsNext (d : Driver) : Prop :=
  match d.pc with
  | .reading _ | .finishing => True
  | .starting n => n = .authorize
  | .inside n => n.next.any (·.checksCancel settings) = true
  | .leaving => d.Parked
  | .ended => True

/-- A request lands where the flag is still read; after it the run is not refused and does not fail, the
flag is not reset, and after a crash the graph goes on. -/
def Heeds (d : Driver) : DriverEvent → Prop
  | .cancel | .cancel_all => d.state ∈ TERMINAL_STATES ∨ d.HeedsNext settings
  | .refuse | .raise => d.cancel_requested = false
  | .start reset => d.cancel_requested = true → reset = true → d.state ≠ .CREATED ∧ d.state ≠ .FAILED
  | .restart =>
    d.cancel_requested = true →
      d.state ∈ TERMINAL_STATES ∨
        d.started = true ∧ settings.use_langgraph = true ∧ d.thread.isSome = true
  | _ => True

instance (d : Driver) : Decidable d.Parked := inferInstanceAs (Decidable (_ ∧ _))

instance (d : Driver) : Decidable (d.HeedsNext settings) := by
  unfold HeedsNext
  split <;> infer_instance

instance (d : Driver) (e : DriverEvent) : Decidable (d.Heeds settings e) := by
  unfold Heeds
  split <;> infer_instance

end

variable {settings : Settings} {d d' : Driver} {e : DriverEvent} {n : Node}

theorem step_read (pc : d.pc = .reading n) : step settings d .read =
    some { d with pc := if d.cancel_requested then .finishing else .starting n } := by
  rw [step, pc]

theorem step_write (pc : d.pc = .starting n) : step settings d .write =
    some { d with state := n.state, started := n == .authorize || d.started, pc := .inside n } := by
  rw [step, pc]

theorem step_finish {next : Node} (pc : d.pc = .inside n) (hnext : n.next = some next) :
    step settings d .finish = some (d.proceed settings next) := by
  simp only [step, pc, hnext]

/-! ### Where the run is -/

/-- The state is the one of the phase, and the graph has stored its position. -/
def Consistent (settings : Settings) (d : Driver) : Prop :=
  match d.pc with
  | .reading n | .starting n => settings.use_langgraph = true → d.thread = some n
  | .inside n => d.state = n.state ∧ (settings.use_langgraph = true → d.thread = some n)
  | _ => True

theorem entrance_cases (settings : Settings) (n : Node) :
    n.checksCancel settings = true ∧ entrance settings n = .reading n ∨
      n.checksCancel settings = false ∧ entrance settings n = .starting n := by
  rw [entrance]
  cases n.checksCancel settings with
  | true => exact Or.inl ⟨rfl, rfl⟩
  | false => exact Or.inr ⟨rfl, rfl⟩

theorem consistent_proceed (d : Driver) (n : Node) : Consistent settings (d.proceed settings n) := by
  have hthread : settings.use_langgraph = true → (d.proceed settings n).thread = some n :=
    fun hgraph ↦ if_pos hgraph
  have hpc : (d.proceed settings n).pc = entrance settings n := rfl
  rw [Consistent, hpc]
  rcases entrance_cases settings n with ⟨-, heq⟩ | ⟨-, heq⟩
  · rw [heq]
    exact hthread
  · rw [heq]
    exact hthread

theorem Consistent.launch (h : Consistent settings d) : Consistent settings (d.launch settings) := by
  rw [Driver.launch]
  split
  · exact consistent_proceed d _
  · exact h

theorem consistent_ended (ended : d.pc = .ended) : Consistent settings d := by
  rw [Consistent, ended]
  trivial

theorem consistent_sweep (ended : d.pc = .ended) : Consistent settings (d.sweep settings) := by
  rw [sweep]
  split
  · exact consistent_ended ended
  · split
    · exact (consistent_ended ended).launch
    · exact Consistent.launch (consistent_ended ended)

/-- A step that changes neither the state, the place nor the position. -/
theorem Consistent.congr (h : Consistent settings d) (state : d'.state = d.state) (pc : d'.pc = d.pc)
    (thread : d'.thread = d.thread) : Consistent settings d' := by
  rw [Consistent, pc, state, thread]
  exact h

theorem Consistent.step (hd : Consistent settings d) (h : step settings d e = some d') :
    Consistent settings d' := by
  cases e with
  | read =>
    rw [Driver.step] at h
    split at h
    next n pc =>
      rw [← Option.some.inj h]
      cases hflag : d.cancel_requested with
      | true => trivial
      | false =>
        rw [Consistent, pc] at hd
        exact hd
    next => cases h
  | write =>
    rw [Driver.step] at h
    split at h
    next n pc =>
      rw [← Option.some.inj h]
      rw [Consistent, pc] at hd
      exact ⟨rfl, hd⟩
    next => cases h
  | finish =>
    rw [Driver.step] at h
    split at h
    next n pc =>
      split at h
      next next hnext => exact Option.some.inj h ▸ consistent_proceed d next
      next => exact Option.some.inj h ▸ trivial
    next => cases h
  | park | route | leave =>
    rw [Driver.step] at h
    split at h
    next hpc =>
      rw [← Option.some.inj h]
      simp [Consistent, hpc]
    next => cases h
  | cancelled =>
    rw [Driver.step] at h
    split at h
    next => exact Option.some.inj h ▸ trivial
    next => cases h
  | refuse =>
    rw [Driver.step] at h
    split at h
    · split at h
      next => exact Option.some.inj h ▸ trivial
      next => cases h
    · split at h
      next => exact Option.some.inj h ▸ trivial
      next => cases h
  | raise =>
    rw [Driver.step] at h
    split at h
    next => cases h
    next => exact Option.some.inj h ▸ trivial
  | start reset =>
    rw [Driver.step] at h
    split at h
    · exact Option.some.inj h ▸ Consistent.launch (hd.congr rfl rfl rfl)
    · exact Option.some.inj h ▸ hd
  | resume =>
    rw [Driver.step] at h
    split at h
    · exact Option.some.inj h ▸ hd.launch
    · cases h
  | cancel =>
    rw [Driver.step] at h
    split at h
    · exact Option.some.inj h ▸ hd
    · rw [← Option.some.inj h]
      by_cases ended : d.pc = .ended
      · exact consistent_ended ended
      · exact hd.congr (if_neg ended) rfl rfl
  | cancel_all =>
    rw [Driver.step] at h
    split at h
    · exact Option.some.inj h ▸ hd
    · exact Option.some.inj h ▸ hd.congr rfl rfl rfl
  | restart => exact Option.some.inj h ▸ consistent_sweep rfl

/-! ### The invariant -/

/-- What holds from a request on that was heeded. -/
inductive Requested (settings : Settings) (d : Driver) : Prop
  | going (flag : d.cancel_requested = true) (live : d.pc ≠ .leaving ∧ d.pc ≠ .ended)
    (unfinished : d.state ∉ TERMINAL_STATES) (heeds : d.HeedsNext settings)
  | gone (flag : d.cancel_requested = true) (left : d.pc = .leaving ∨ d.pc = .ended)
    (outcome : d.state = .CANCELLED ∨ d.Parked)

namespace Requested

theorem flag (h : Requested settings d) : d.cancel_requested = true := by
  cases h with
  | going flag => exact flag
  | gone flag => exact flag

theorem unfailed (h : Requested settings d) : d.state ≠ .CREATED ∧ d.state ≠ .FAILED ∨
    d.state = .CREATED ∧ d.pc ≠ .ended := by
  cases h with
  | going _ live unfinished =>
    by_cases hcreated : d.state = .CREATED
    · exact Or.inr ⟨hcreated, live.2⟩
    · exact Or.inl ⟨hcreated, fun hfailed ↦ unfinished (by rw [hfailed]; decide)⟩
  | gone _ _ outcome =>
    rcases outcome with hstate | ⟨hstate, -⟩
    · rw [hstate]
      exact Or.inl ⟨by decide, by decide⟩
    · rw [hstate]
      exact Or.inl ⟨by decide, by decide⟩

theorem uncompleted (h : Requested settings d) : d.state ≠ .COMPLETED := by
  intro hstate
  cases h with
  | going _ _ unfinished => exact unfinished (by rw [hstate]; decide)
  | gone _ _ outcome =>
    rcases outcome with hcancelled | ⟨hparked, -⟩
    · rw [hstate] at hcancelled
      cases hcancelled
    · rw [hstate] at hparked
      cases hparked

/-- A phase whose boundary is checked begins by reading the flag; only authorizing does not. -/
theorem proceed (flag : d.cancel_requested = true) (unfinished : d.state ∉ TERMINAL_STATES)
    (hn : n.checksCancel settings = true ∨ n = .authorize) :
    Requested settings (d.proceed settings n) := by
  have hpc : (d.proceed settings n).pc = entrance settings n := rfl
  rcases entrance_cases settings n with ⟨-, heq⟩ | ⟨hunchecked, heq⟩
  · rw [heq] at hpc
    refine .going flag ?_ unfinished ?_
    · rw [hpc]
      exact ⟨by simp, by simp⟩
    · rw [HeedsNext, hpc]
      trivial
  · rw [heq] at hpc
    refine .going flag ?_ unfinished ?_
    · rw [hpc]
      exact ⟨by simp, by simp⟩
    · rw [HeedsNext, hpc]
      exact hn.resolve_left (by simp [hunchecked])

/-- A launch goes to the pending node of the graph, which reads the flag, or to authorizing. -/
theorem launch (flag : d.cancel_requested = true) (unfinished : d.state ∉ TERMINAL_STATES)
    (ended : d.pc = .ended) : Requested settings (d.launch settings) := by
  rw [Driver.launch, if_pos ended]
  by_cases hgraph : settings.use_langgraph = true
  · exact proceed flag unfinished (Or.inl (by rw [Node.checksCancel, hgraph]; rfl))
  · exact proceed flag unfinished (Or.inr (if_neg hgraph))

theorem of_parked (flag : d.cancel_requested = true) (parked : d.Parked) (ended : d.pc = .ended) :
    Requested settings (d.launch settings) :=
  launch flag (by rw [parked.1]; decide) ended

/-- The place of a run that goes on. -/
theorem at_place (h : Requested settings d) (live : d.pc ≠ .leaving ∧ d.pc ≠ .ended) :
    d.state ∉ TERMINAL_STATES ∧ d.HeedsNext settings := by
  cases h with
  | going _ _ unfinished heeds => exact ⟨unfinished, heeds⟩
  | gone _ left => exact absurd left (by simp [live.1, live.2])

theorem at_end (h : Requested settings d) (left : d.pc = .leaving ∨ d.pc = .ended) :
    d.state = .CANCELLED ∨ d.Parked := by
  cases h with
  | going _ live => exact absurd left (by simp [live.1, live.2])
  | gone _ _ outcome => exact outcome

/-- **No phase is entered.** -/
theorem silent (h : Requested settings d) : enters d e d' = [] := by
  cases e with
  | write =>
    cases hpc : d.pc with
    | starting n =>
      obtain ⟨-, heeds⟩ := h.at_place (by rw [hpc]; exact ⟨by simp, by simp⟩)
      rw [HeedsNext, hpc] at heeds
      simp only [enters, hpc]
      exact if_pos heeds
    | _ => simp only [enters, hpc]
  | _ => rfl

/-- **One step** after a request that was heeded. -/
theorem step (h : Requested settings d) (hd : Consistent settings d) (he : d.Heeds settings e)
    (hs : step settings d e = some d') : Requested settings d' := by
  cases e with
  | read =>
    rw [Driver.step] at hs
    split at hs
    next n pc =>
      obtain ⟨unfinished, -⟩ := h.at_place (by rw [pc]; exact ⟨by simp, by simp⟩)
      rw [← Option.some.inj hs, if_pos h.flag]
      exact .going h.flag ⟨by simp, by simp⟩ unfinished trivial
    next => cases hs
  | write =>
    rw [Driver.step] at hs
    split at hs
    next n pc =>
      obtain ⟨-, heeds⟩ := h.at_place (by rw [pc]; exact ⟨by simp, by simp⟩)
      rw [HeedsNext, pc] at heeds
      rw [← Option.some.inj hs, show n = .authorize from heeds]
      -- after authorizing both drivers read the flag
      have unfinished : Node.authorize.state ∉ TERMINAL_STATES := by decide
      refine .going h.flag ⟨by simp, by simp⟩ unfinished ?_
      show ((Node.discover).checksCancel settings) = true
      simp [Node.checksCancel]
    next => cases hs
  | finish =>
    rw [Driver.step] at hs
    split at hs
    next n pc =>
      obtain ⟨unfinished, heeds⟩ := h.at_place (by rw [pc]; exact ⟨by simp, by simp⟩)
      rw [HeedsNext, pc] at heeds
      split at hs
      next next hnext =>
        have hchecks : next.checksCancel settings = true := by
          simpa [hnext] using heeds
        exact Option.some.inj hs ▸ proceed h.flag unfinished (Or.inl hchecks)
      next hnext => simp [hnext] at heeds
    next => cases hs
  | park =>
    rw [Driver.step] at hs
    split at hs
    next hpc =>
      rw [Consistent, hpc.1] at hd
      exact Option.some.inj hs ▸ .gone h.flag (Or.inl rfl) (Or.inr ⟨hd.1, hd.2 hpc.2⟩)
    next => cases hs
  | refuse =>
    have hflag : d.cancel_requested = false := he
    rw [h.flag] at hflag
    cases hflag
  | raise =>
    have hflag : d.cancel_requested = false := he
    rw [h.flag] at hflag
    cases hflag
  | route =>
    rw [Driver.step] at hs
    split at hs
    next pc =>
      have live : d.pc ≠ .leaving ∧ d.pc ≠ .ended := by rw [pc]; exact ⟨by simp, by simp⟩
      rw [← Option.some.inj hs]
      refine .going h.flag live (h.at_place live).1 ?_
      rw [HeedsNext, pc]
      trivial
    next => cases hs
  | cancelled =>
    rw [Driver.step] at hs
    split at hs
    next => exact Option.some.inj hs ▸ .gone h.flag (Or.inl rfl) (Or.inl rfl)
    next => cases hs
  | leave =>
    rw [Driver.step] at hs
    split at hs
    next pc => exact Option.some.inj hs ▸ .gone h.flag (Or.inr rfl) (h.at_end (Or.inl pc))
    next => cases hs
  | start reset =>
    rw [Driver.step] at hs
    split at hs
    next hstate =>
      rcases h.unfailed with hunfailed | ⟨hcreated, live⟩
      · exact absurd hstate (by simp [hunfailed.1, hunfailed.2])
      · have hreset : reset = false := by
          cases reset with
          | false => rfl
          | true => exact absurd hcreated (he h.flag rfl).1
        rw [← Option.some.inj hs, hreset, Driver.launch, if_neg live]
        simpa using h
    next => exact Option.some.inj hs ▸ h
  | resume =>
    rw [Driver.step] at hs
    split at hs
    next hparked =>
      exact Option.some.inj hs ▸ launch h.flag (by rw [hparked.2]; decide) hparked.1
    next => cases hs
  | cancel =>
    rw [Driver.step] at hs
    split at hs
    next => exact Option.some.inj hs ▸ h
    next hstate =>
      rw [← Option.some.inj hs]
      by_cases ended : d.pc = .ended
      · exact .gone rfl (Or.inr ended) (Or.inl (if_pos ended))
      · rw [if_neg ended, ← h.flag]
        exact h
  | cancel_all =>
    rw [Driver.step] at hs
    split at hs
    next => exact Option.some.inj hs ▸ h
    next =>
      rw [← Option.some.inj hs, ← h.flag]
      exact h
  | restart =>
    rw [← Option.some.inj hs, sweep]
    have hheeds := he h.flag
    by_cases hterminal : d.state ∈ TERMINAL_STATES
    · rw [if_pos (Or.inl hterminal)]
      by_cases live : d.pc ≠ .leaving ∧ d.pc ≠ .ended
      · exact absurd hterminal (h.at_place live).1
      · refine .gone h.flag (Or.inr rfl) (h.at_end ?_)
        by_cases hleaving : d.pc = .leaving
        · exact Or.inl hleaving
        · exact Or.inr (by simpa [hleaving] using live)
    · obtain ⟨started, hgraph, hthread⟩ := hheeds.resolve_left hterminal
      rw [if_neg (by simp [hterminal, started]), if_pos ⟨hgraph, hthread⟩]
      exact launch h.flag hterminal rfl

end Requested

/-! ### The run ends -/

/-- One step on the way. -/
theorem Finishes.of_step (hadvances : e.advances = true) (h : step settings d e = some d')
    (hd : d'.Finishes settings) : d.Finishes settings := by
  obtain ⟨es, d₁, hes, hrun, hend⟩ := hd
  refine ⟨e :: es, d₁, ?_, by rw [Machine.run_cons, h]; exact hrun, hend⟩
  intro e' he'
  rcases List.mem_cons.1 he' with rfl | he'
  · exact hadvances
  · exact hes e' he'

/-- The flag is read. -/
theorem Finishes.of_reading (flag : d.cancel_requested = true) (pc : d.pc = .reading n) :
    d.Finishes settings := by
  refine ⟨[.read, .route, .cancelled, .leave], ?_⟩
  refine ⟨{ d with pc := .ended, thread := none, state := .CANCELLED }, ?_, ?_, rfl, rfl⟩
  · decide
  · simp [step, pc, flag]

theorem Finishes.of_finishing (pc : d.pc = .finishing) : d.Finishes settings := by
  refine ⟨[.route, .cancelled, .leave], ?_⟩
  refine ⟨{ d with pc := .ended, thread := none, state := .CANCELLED }, ?_, ?_, rfl, rfl⟩
  · decide
  · simp [step, pc]

/-- The phase ends at a boundary that is checked. -/
theorem Finishes.of_inside (flag : d.cancel_requested = true) (pc : d.pc = .inside n)
    (heeds : d.HeedsNext settings) : d.Finishes settings := by
  rw [HeedsNext, pc] at heeds
  cases hnext : n.next with
  | none => simp [hnext] at heeds
  | some next =>
    have hchecks : next.checksCancel settings = true := by simpa [hnext] using heeds
    have hstep : step settings d .finish = some (d.proceed settings next) := by
      simp [step, pc, hnext]
    exact .of_step rfl hstep (.of_reading flag (if_pos hchecks))

theorem Finishes.of_starting (flag : d.cancel_requested = true) (pc : d.pc = .starting .authorize) :
    d.Finishes settings := by
  have hstep : ∃ d', step settings d .write = some d' ∧ d'.cancel_requested = true ∧
      d'.pc = .inside .authorize := by
    simp [step, pc, flag]
  obtain ⟨d', hwrite, hflag, hpc⟩ := hstep
  refine .of_step rfl hwrite (.of_inside hflag hpc ?_)
  rw [HeedsNext, hpc]
  simp [Node.next, Node.checksCancel]

/-- A parked run is cancelled when it goes on. -/
theorem Finishes.of_parked (flag : d.cancel_requested = true) (parked : d.Parked)
    (ended : d.pc = .ended) : d.Finishes settings := by
  have hstep : step settings d .resume = some (d.launch settings) := by
    simp [step, ended, parked.1]
  refine .of_step rfl hstep ?_
  rw [launch, if_pos ended]
  by_cases hgraph : settings.use_langgraph = true
  · exact .of_reading flag (if_pos (by rw [Node.checksCancel, hgraph]; rfl))
  · refine .of_starting flag ?_
    show entrance settings _ = _
    rw [if_neg hgraph]
    simp [entrance, Node.checksCancel, hgraph]

theorem Requested.finishes (h : Requested settings d) : d.Finishes settings := by
  cases h with
  | going flag live _ heeds =>
    cases hpc : d.pc with
    | reading n => exact .of_reading flag hpc
    | starting n =>
      rw [HeedsNext, hpc] at heeds
      exact .of_starting flag (by rw [hpc, show n = .authorize from heeds])
    | inside n => exact .of_inside flag hpc heeds
    | finishing => exact .of_finishing hpc
    | leaving => exact absurd hpc live.1
    | ended => exact absurd hpc live.2
  | gone flag left outcome =>
    have hended : ∀ {d : Driver}, d.cancel_requested = true → d.pc = .ended →
        d.state = .CANCELLED ∨ d.Parked → d.Finishes settings := by
      intro d flag ended outcome
      rcases outcome with hstate | hparked
      · exact ⟨[], d, by simp, rfl, ended, hstate⟩
      · exact .of_parked flag hparked ended
    rcases left with leaving | ended
    · have hstep : Driver.step settings d .leave = some { d with pc := .ended } := by
        simp [Driver.step, leaving]
      exact .of_step rfl hstep (hended flag rfl outcome)
    · exact hended flag ended outcome

/-! ### The main theorem -/

/-- A request where the flag is still read. -/
theorem Requested.of_request (live : d.pc ≠ .ended)
    (unfinished : d.state ∉ TERMINAL_STATES) (heeds : d.HeedsNext settings) :
    Requested settings { d with cancel_requested := true } := by
  by_cases hleaving : d.pc = .leaving
  · rw [HeedsNext, hleaving] at heeds
    exact .gone rfl (Or.inl hleaving) (Or.inr heeds)
  · exact .going rfl ⟨hleaving, live⟩ unfinished heeds

/-- While the run is live, both requests do the same. -/
theorem step_request {request : DriverEvent} (hrequest : request = .cancel ∨ request = .cancel_all)
    (live : d.pc ≠ .ended) (unfinished : d.state ∉ TERMINAL_STATES) :
    step settings d request = some { d with cancel_requested := true } := by
  rcases hrequest with rfl | rfl
  · simp [step, unfinished, live]
  · simp [step, unfinished]

theorem Requested.honoured (h : Requested settings d) {entered : List AssessmentState}
    (silent : entered = []) : Honoured settings d entered where
  silent := silent
  uncompleted := h.uncompleted
  outcome ended := h.at_end (Or.inr ended)
  finishes := h.finishes

/-- **Cancellation is honoured**, in both drivers: whatever happened before a request that reaches a live
run, and whatever happens after it, as long as every step from it on meets the condition. -/
theorem honoured_of_heeds {before es : List DriverEvent} {request : DriverEvent}
    (hbefore : Machine.run (step settings) {} before = some d)
    (live : d.pc ≠ .ended) (unfinished : d.state ∉ TERMINAL_STATES)
    (hrequest : request = .cancel ∨ request = .cancel_all)
    (hes : Machine.Along (step settings) (Heeds settings) d (request :: es))
    (h : Machine.run (step settings) d (request :: es) = some d') :
    Honoured settings d' (Machine.trace (step settings) enters d (request :: es)) := by
  have hd : Consistent settings d :=
    Machine.inv_of_run (I := Consistent settings) (fun hd hs ↦ hd.step hs) hbefore
      (consistent_ended rfl)
  have heeds : d.HeedsNext settings := by
    rcases hrequest with rfl | rfl
    · exact (show _ ∨ _ from hes.1).resolve_left unfinished
    · exact (show _ ∨ _ from hes.1).resolve_left unfinished
  have hfirst := @step_request settings d request hrequest live unfinished
  have hR := Requested.of_request live unfinished heeds
  have hquiet : enters d request { d with cancel_requested := true } = [] := by
    rcases hrequest with rfl | rfl <;> rfl
  rw [Machine.run_cons, hfirst] at h
  rw [Machine.trace_cons hfirst, hquiet, List.nil_append]
  -- from the request on, the invariant holds and nothing has been entered
  have hinv : (Requested settings d' ∧ Consistent settings d') ∧
      Machine.trace (step settings) enters { d with cancel_requested := true } es = [] := by
    refine Machine.inv_of_trace_along
      (I := fun d states ↦ (Requested settings d ∧ Consistent settings d) ∧ states = [])
      (fun hI hC hs ↦ ⟨⟨hI.1.1.step hI.1.2 hC hs, hI.1.2.step hs⟩, ?_⟩) (hes.2 _ hfirst) h
      ⟨⟨hR, hd.congr rfl rfl rfl⟩, rfl⟩
    rw [hI.2, hI.1.1.silent]
    rfl
  exact hinv.1.1.honoured hinv.2

/-- An inline run from its start into its first phase. -/
def intoDiscovery : List DriverEvent := [.start true, .write, .finish, .read, .write]

/-- From there into validation. -/
def intoValidation : List DriverEvent :=
  [.finish, .read, .write, .finish, .read, .write, .finish, .read, .write, .finish, .read, .write]

/-- From there to the end. -/
def toEnd : List DriverEvent := [.finish, .write, .finish, .write, .finish, .leave]

theorem honoured_of_heeds_discovery : ∃ d d', Machine.run (step {}) {} intoDiscovery = some d ∧
    Machine.run (step {}) d [.cancel, .finish, .read, .cancelled, .leave] = some d' ∧
    Honoured {} d' (Machine.trace (step {}) enters d [.cancel, .finish, .read, .cancelled, .leave]) := by
  obtain ⟨d, hd, live, unfinished, d', hd', hes⟩ : ∃ d, Machine.run (step {}) {} intoDiscovery = some d ∧
      d.pc ≠ .ended ∧ d.state ∉ TERMINAL_STATES ∧
      ∃ d', Machine.run (step {}) d [.cancel, .finish, .read, .cancelled, .leave] = some d' ∧
        Machine.Along (step {}) (Heeds {}) d [.cancel, .finish, .read, .cancelled, .leave] :=
    ⟨_, rfl, by decide, by decide, _, rfl, by decide⟩
  exact ⟨d, d', hd, hd', honoured_of_heeds hd live unfinished (Or.inl rfl) hes hd'⟩

/-- A request during validation is accepted, and the inline run goes on through scoring and reporting to
`COMPLETED`. -/
theorem validating_not_honoured : ∃ d d',
    Machine.run (step {}) {} (intoDiscovery ++ intoValidation) = some d ∧
    d.pc = .inside .validate ∧ d.state = .VALIDATING ∧
    Machine.run (step {}) d (.cancel :: toEnd) = some d' ∧
    (d'.cancel_requested = true ∧ d'.pc = .ended ∧ d'.state = .COMPLETED) ∧
    Machine.trace (step {}) enters d (.cancel :: toEnd) = [.SCORING, .REPORTING] ∧
    ¬Honoured {} d' (Machine.trace (step {}) enters d (.cancel :: toEnd)) := by
  refine ⟨_, _, rfl, rfl, rfl, rfl, ⟨rfl, rfl, rfl⟩, by decide, fun h ↦ ?_⟩
  exact h.uncompleted rfl

/-! ### What happens elsewhere -/

/-- What becomes of a run whose task is past the last reading of the flag. -/
theorem exists_breach (live : d.pc ≠ .ended) (unfinished : d.state ∉ TERMINAL_STATES)
    (unheeded : ¬d.HeedsNext settings) :
    ∃ es d', (∀ e ∈ es, e.advances = true) ∧ Machine.run (step settings) d es = some d' ∧
      (Machine.trace (step settings) enters d es ≠ [] ∨
        d'.pc = .ended ∧ d'.state ≠ .CANCELLED ∧ ¬d'.Parked) := by
  cases hpc : d.pc with
  | reading n => simp [HeedsNext, hpc] at unheeded
  | finishing => simp [HeedsNext, hpc] at unheeded
  | ended => exact absurd hpc live
  | starting n =>
    have hn : n ≠ .authorize := by simpa [HeedsNext, hpc] using unheeded
    obtain ⟨d', hwrite⟩ : ∃ d', step settings d .write = some d' := by simp [step, hpc]
    refine ⟨[.write], d', by decide, by simp [hwrite], Or.inl ?_⟩
    rw [Machine.trace_cons hwrite]
    simp [enters, hpc, hn]
  | inside n =>
    cases hnext : n.next with
    | none =>
      have hfinish : step settings d .finish =
          some { d with state := .COMPLETED, pc := .leaving, thread := none } := by
        simp [step, hpc, hnext]
      refine ⟨[.finish, .leave], { d with state := .COMPLETED, pc := .ended, thread := none }, ?_, ?_,
        Or.inr ⟨rfl, by simp, by simp [Parked]⟩⟩
      · decide
      · rw [Machine.run_cons, hfinish]
        rfl
    | some next =>
      have hunchecked : next.checksCancel settings = false := by
        simpa [HeedsNext, hpc, hnext] using unheeded
      have hnext' : next ≠ .authorize := by
        rintro rfl
        cases n <;> cases hnext
      have hfinish : step settings d .finish = some (d.proceed settings next) := by
        simp [step, hpc, hnext]
      have hplace : (d.proceed settings next).pc = .starting next := by
        simp [proceed, entrance, hunchecked]
      obtain ⟨d', hwrite⟩ : ∃ d', step settings (d.proceed settings next) .write = some d' := by
        simp [step, hplace]
      refine ⟨[.finish, .write], d', by decide, by simp [hfinish, hwrite], Or.inl ?_⟩
      rw [Machine.trace_cons hfinish, Machine.trace_cons hwrite]
      simp [enters, hplace, hnext']
  | leaving =>
    have hparked : ¬d.Parked := by simpa [HeedsNext, hpc] using unheeded
    refine ⟨[.leave], { d with pc := .ended }, by decide, by simp [step, hpc], ?_⟩
    refine Or.inr ⟨rfl, fun hstate ↦ unfinished ?_, hparked⟩
    rw [show d.state = .CANCELLED from hstate]
    decide

/-- **Where the flag is not read any more** a request is lost: the run enters another phase, or is over and
not cancelled. -/
theorem breach_of_unheeded (live : d.pc ≠ .ended) (unfinished : d.state ∉ TERMINAL_STATES)
    (unheeded : ¬d.HeedsNext settings) :
    ∃ es d', (∀ e ∈ es, e.advances = true) ∧
      Machine.run (step settings) d (.cancel :: es) = some d' ∧
      (Machine.trace (step settings) enters d (.cancel :: es) ≠ [] ∨
        d'.pc = .ended ∧ d'.state ≠ .CANCELLED ∧ ¬d'.Parked) := by
  have hfirst := @step_request settings d .cancel (Or.inl rfl) live unfinished
  obtain ⟨es, d', hes, hrun, hbreach⟩ :=
    @exists_breach settings { d with cancel_requested := true } live unfinished unheeded
  refine ⟨es, d', hes, by rw [Machine.run_cons, hfirst]; exact hrun, hbreach.imp (fun htrace ↦ ?_) id⟩
  rw [Machine.trace_cons hfirst]
  exact fun hnil ↦ htrace (List.append_eq_nil_iff.1 hnil).2

end Driver

/-! ### The orchestrator and the driver -/

/-- The place of the task. The places within a phase are one. -/
def MainPc.driver (settings : Settings) : MainPc → DriverPc
  | .entering n => Driver.entrance settings n
  | .inside n => .inside n
  | .awaiting .. => .inside .policy
  | .loggingIn _ | .streaming .. | .retrying .. | .replanning _ | .replanStreaming .. =>
    .inside .execute
  | .cancelling => .finishing
  | .leaving => .leaving

theorem MainPc.driver_ne_ended {settings : Settings} {pc : MainPc} : pc.driver settings ≠ .ended := by
  cases pc with
  | entering n =>
    rw [MainPc.driver, Driver.entrance]
    split <;> simp
  | _ => simp [MainPc.driver]

theorem MainPc.leaving_of_driver {settings : Settings} {pc : MainPc}
    (h : pc.driver settings = .leaving) : pc = .leaving := by
  cases pc with
  | entering n =>
    rw [MainPc.driver, Driver.entrance] at h
    split at h <;> cases h
  | leaving => rfl
  | _ => cases h

namespace Orchestrator

/-- What cancellation is concerned with. -/
def driver (settings : Settings) (o : Orchestrator) : Driver where
  state := o.assessment.state
  cancel_requested := o.assessment.cancel_requested
  started := o.assessment.started
  pc := o.main.elim .ended (·.pc.driver settings)
  thread := o.thread

/-- What the driver can do between two states of the orchestrator. -/
def Follows (settings : Settings) (o o' : Orchestrator) : Prop :=
  Machine.Reaches (Driver.step settings) (o.driver settings) (o'.driver settings)

variable {registry : _Registry} {record : AuthorizationRecord} {settings : Settings}
variable {o o' : Orchestrator} {m : Main} {n : Node}

/-- The driver stays where it is. -/
theorem Follows.of_eq (h : o'.driver settings = o.driver settings) : Follows settings o o' :=
  ⟨[], by rw [h]; rfl⟩

theorem driver_main (main : o.main = some m) :
    o.driver settings = ⟨o.assessment.state, o.assessment.cancel_requested, o.assessment.started,
      m.pc.driver settings, o.thread⟩ := by
  rw [driver, main]
  rfl

theorem closeMain_eq (o : Orchestrator) (m : Main) :
    ∃ connections, o.closeMain m = { o with connections } := by
  rw [closeMain]
  cases m.client with
  | none => exact ⟨o.connections, rfl⟩
  | some k => exact ⟨_, rfl⟩

theorem driver_endPhase (o : Orchestrator) (m : Main) (n : Node) :
    (endPhase settings o m n).driver settings = (o.driver settings).proceed settings n := by
  rw [endPhase]
  split
  · obtain ⟨connections, heq⟩ := closeMain_eq o m
    rw [heq]
    rfl
  · rfl

theorem driver_start_assessment (o : Orchestrator) :
    (start_assessment settings o).driver settings = (o.driver settings).launch settings := by
  rw [start_assessment]
  cases hmain : o.main with
  | none =>
    have ended : (o.driver settings).pc = .ended := by
      rw [driver, hmain]
      rfl
    rw [Driver.launch, if_pos ended]
    rfl
  | some m =>
    have live : (o.driver settings).pc ≠ .ended := by
      rw [driver_main hmain]
      exact MainPc.driver_ne_ended
    rw [Driver.launch, if_neg live]
    rfl

/-- The phase ends. -/
theorem Follows.of_finish {next : Node} (main : o.main = some m) (pc : m.pc.driver settings = .inside n)
    (hnext : n.next = some next) (h : o'.driver settings = (o.driver settings).proceed settings next) :
    Follows settings o o' := by
  refine ⟨[.finish], ?_⟩
  have hpc : (o.driver settings).pc = .inside n := by rw [driver_main main, pc]
  simp [Driver.step, hpc, hnext, h]

/-- The task goes on within its phase. -/
theorem Follows.of_within {place : DriverPc} (main : o.main = some m)
    (pc : m.pc.driver settings = place)
    (same : o'.driver settings = { o.driver settings with pc := place }) : Follows settings o o' := by
  refine .of_eq ?_
  rw [same, ← pc, driver_main main]

/-- The state of a phase is written. -/
def entered (d : Driver) (n : Node) : Driver :=
  { d with state := n.state, started := n == .authorize || d.started, pc := .inside n }

/-- The task begins a phase: it reads the flag if it does so here. -/
theorem reaches_starting (main : o.main = some m) (pc : m.pc = .entering n)
    (hgo : ¬(n.checksCancel settings = true ∧ o.assessment.cancel_requested = true)) :
    Machine.Reaches (Driver.step settings) (o.driver settings)
      { o.driver settings with pc := .starting n } := by
  have hpc : (o.driver settings).pc = Driver.entrance settings n := by
    rw [driver_main main, pc]
    rfl
  rcases Driver.entrance_cases settings n with ⟨hchecks, heq⟩ | ⟨-, heq⟩
  · have hflag : ¬(o.driver settings).cancel_requested = true :=
      show ¬o.assessment.cancel_requested = true from fun hflag ↦ hgo ⟨hchecks, hflag⟩
    refine ⟨[.read], ?_⟩
    rw [Machine.run_cons, Driver.step_read (hpc.trans heq), if_neg hflag]
    rfl
  · refine ⟨[], ?_⟩
    rw [Machine.run_nil, ← heq, ← hpc]

/-- It writes the state. -/
theorem reaches_entered (main : o.main = some m) (pc : m.pc = .entering n)
    (hgo : ¬(n.checksCancel settings = true ∧ o.assessment.cancel_requested = true)) :
    Machine.Reaches (Driver.step settings) (o.driver settings) (entered (o.driver settings) n) :=
  (reaches_starting main pc hgo).tail (e := .write) (Driver.step_write rfl)

theorem follows_enter (main : o.main = some m) (pc : m.pc = .entering n) (now : ℤ) :
    Follows settings o (enter record settings o m n now) := by
  rw [enter.eq_def]
  dsimp only
  split
  next hcancel =>
    have hpc : (o.driver settings).pc = .reading n := by
      rw [driver_main main, pc]
      exact if_pos hcancel.1
    have hflag : (o.driver settings).cancel_requested = true := hcancel.2
    refine ⟨[.read], ?_⟩
    rw [Machine.run_cons, Driver.step_read hpc, if_pos hflag]
    rfl
  next hgo =>
  have hentered := reaches_entered main pc hgo
  cases n with
  | authorize =>
    dsimp only
    split
    next hdenied =>
      -- the node answers with the reason, and the graph ends
      have hrefuse : Driver.step settings (entered (o.driver settings) .authorize) .refuse =
          some { entered (o.driver settings) .authorize with pc := .leaving, thread := none } := by
        simp only [Driver.step, if_pos hdenied.1, entered, if_true]
      exact (hentered.tail hrefuse).tail (e := .leave) rfl
    next => exact hentered.tail (Driver.step_finish rfl rfl)
  | discover =>
    dsimp only
    split
    next hdenied =>
      have hrefuse : Driver.step settings { o.driver settings with pc := .starting .discover } .refuse =
          some { o.driver settings with pc := .leaving, state := .FAILED } := by
        simp only [Driver.step, if_neg hdenied.1, if_true]
      exact (reaches_starting main pc hgo).tail hrefuse
    next => exact hentered
  | plan => exact hentered
  | policy => exact hentered
  | execute =>
    dsimp only
    split
    · exact hentered
    · exact hentered
  | validate =>
    dsimp only
    split
    · exact hentered
    · exact hentered
  | score => exact hentered
  | report => exact hentered

theorem driver_addEndpoints (o : Orchestrator) (found : List Endpoint) :
    (o.addEndpoints found).1.driver settings = o.driver settings := by
  obtain ⟨endpoints, nextId, -, heq⟩ := addEndpoints_eq o found
  rw [heq]
  rfl

theorem driver_phase_score (o : Orchestrator) :
    (_phase_score registry record o).driver settings = o.driver settings := by
  obtain ⟨coverage, heq⟩ := _phase_score_eq registry record o
  rw [heq]
  rfl

variable [u : UnicodeTables]

theorem driver_freeze (o : Orchestrator) : o.freeze.driver settings = o.driver settings := by
  rw [freeze]
  split <;> rfl

theorem follows_policy (main : o.main = some m) (pc : m.pc = .inside .policy) :
    Follows settings o (_phase_policy registry record settings o m) := by
  have hjudged : (judgeAll registry record settings o (underReview settings o m)).freeze.driver settings =
      o.driver settings := driver_freeze _
  have hpc : m.pc.driver settings = .inside .policy := by rw [pc]; rfl
  rw [_phase_policy]
  dsimp only
  split
  next hgraph =>
    split
    · exact .of_finish main hpc rfl (congrArg (Driver.proceed settings · .execute) hjudged)
    · refine ⟨[.park], ?_⟩
      have hplace : (o.driver settings).pc = .inside .policy := by rw [driver_main main, hpc]
      rw [Machine.run_cons, Driver.step, if_pos ⟨hplace, hgraph⟩, ← hjudged]
      rfl
  next =>
    split
    · exact .of_finish main hpc rfl (congrArg (Driver.proceed settings · .execute) hjudged)
    · refine .of_within main hpc ?_
      rw [← hjudged]
      rfl

/-- **A step of the task** is one the driver can follow. -/
theorem follows_mainStep {e : MainEvent} (main : o.main = some m)
    (h : mainStep registry record settings o m e = some o') : Follows settings o o' := by
  cases e with
  | enter now =>
    simp only [mainStep] at h
    split at h
    next n pc => exact Option.some.inj h ▸ follows_enter main pc now
    next => cases h
  | discovered found =>
    simp only [mainStep] at h
    split at h
    next pc =>
      rw [← Option.some.inj h]
      exact .of_finish main (by rw [pc]; rfl) rfl ((driver_endPhase _ _ _).trans
        (congrArg (Driver.proceed settings · .plan) (driver_addEndpoints o found)))
    next => cases h
  | plan multi strategy order =>
    simp only [mainStep] at h
    split at h
    next pc =>
      rw [← Option.some.inj h]
      exact .of_finish main (by rw [pc]; rfl) rfl
        (congrArg (Driver.proceed settings · .policy) (driver_freeze o))
    next => cases h
  | policy =>
    simp only [mainStep] at h
    split at h
    next pc => exact Option.some.inj h ▸ follows_policy main pc
    next => cases h
  | poll expired =>
    simp only [mainStep] at h
    split at h
    next approved pending pc =>
      rw [← Option.some.inj h, _await_step_approvals]
      split
      · exact .of_finish main (by rw [pc]; rfl) rfl rfl
      · exact .of_within main (by rw [pc]; rfl) rfl
    next => cases h
  | coordinate elects_stop =>
    simp only [mainStep] at h
    split at h
    next pc =>
      rw [← Option.some.inj h, coordinate]
      split
      · exact .of_finish main (by rw [pc]; rfl) rfl (driver_endPhase _ _ _)
      · exact .of_within main (by rw [pc]; rfl) rfl
    next => cases h
  | send =>
    simp only [mainStep] at h
    split at h
    · exact Option.some.inj h ▸ .of_eq rfl
    · cases h
  | dispatch =>
    simp only [mainStep] at h
    split at h
    next steps pc =>
      obtain ⟨tasks, -, rfl⟩ := Option.map_eq_some_iff.1 h
      have hpc : m.pc.driver settings = .inside .execute := by rw [pc]; rfl
      refine .of_within main hpc ?_
      rw [← driver_freeze o]
      rfl
    next => cases h
  | deliver i noticed =>
    simp only [mainStep] at h
    split at h
    next pool errored pc =>
      obtain ⟨⟨t, error⟩, -, rfl⟩ := Option.map_eq_some_iff.1 h
      dsimp only
      split
      · refine .of_finish main (by rw [pc]; rfl) rfl ((driver_endPhase _ _ _).trans ?_)
        cases m.client <;> rfl
      · exact .of_within main (by rw [pc]; rfl) rfl
    next iteration pool pc =>
      obtain ⟨⟨t, error⟩, -, rfl⟩ := Option.map_eq_some_iff.1 h
      dsimp only
      split
      · exact .of_within main (by rw [pc]; rfl) rfl
      · exact .of_eq rfl
    next => cases h
  | drained =>
    simp only [mainStep] at h
    split at h
    next pool errored pc =>
      split at h
      · exact Option.some.inj h ▸ .of_within main (by rw [pc]; rfl) rfl
      · cases h
    next iteration pool pc =>
      split at h
      · exact Option.some.inj h ▸ .of_within main (by rw [pc]; rfl) rfl
      · cases h
    next => cases h
  | retry noticed =>
    simp only [mainStep] at h
    split at h
    next attempt queue errored pc =>
      rw [retry.eq_def] at h
      split at h
      next i rest =>
        obtain ⟨t, -, rfl⟩ := Option.map_eq_some_iff.1 h
        exact .of_within main (by rw [pc]; rfl) rfl
      next =>
        split at h
        · exact Option.some.inj h ▸ .of_within main (by rw [pc]; rfl) rfl
        · exact Option.some.inj h ▸ .of_within main (by rw [pc]; rfl) rfl
    next => cases h
  | retried =>
    simp only [mainStep] at h
    split at h
    next attempt i queue errored pc =>
      rw [retried] at h
      split at h
      next t task =>
        split at h
        · exact Option.some.inj h ▸ .of_within main (by rw [pc]; rfl) rfl
        · cases h
      next => cases h
    next => cases h
  | replan answer =>
    simp only [mainStep] at h
    split at h
    next iteration pc =>
      rw [_maybe_replan] at h
      split at h
      · cases h
      · split at h
        · exact Option.some.inj h ▸ .of_finish main (by rw [pc]; rfl) rfl (driver_endPhase _ _ _)
        · obtain ⟨tasks, -, rfl⟩ := Option.map_eq_some_iff.1 h
          exact .of_within main (by rw [pc]; rfl) rfl
    next => cases h
  | validated =>
    simp only [mainStep] at h
    split at h
    next pc => exact Option.some.inj h ▸ .of_finish main (by rw [pc]; rfl) rfl (driver_endPhase _ _ _)
    next => cases h
  | scored =>
    simp only [mainStep] at h
    split at h
    next pc =>
      rw [← Option.some.inj h]
      exact .of_finish main (by rw [pc]; rfl) rfl
        (congrArg (Driver.proceed settings · .report) (driver_phase_score o))
    next => cases h
  | reported =>
    simp only [mainStep] at h
    split at h
    next pc =>
      have hplace : (o.driver settings).pc = .inside .report := by rw [driver_main main, pc]; rfl
      have hfinish : Driver.step settings (o.driver settings) .finish =
          some { o.driver settings with state := .COMPLETED, pc := .leaving, thread := none } := by
        simp only [Driver.step, hplace, Node.next]
      rw [← Option.some.inj h]
      exact (Machine.Reaches.refl _ _).tail hfinish
    next => cases h
  | raise error =>
    simp only [mainStep] at h
    split at h
    next => cases h
    next hpc =>
      have hplace : ¬((o.driver settings).pc = .leaving ∨ (o.driver settings).pc = .ended) := by
        rw [driver_main main]
        exact not_or.2 ⟨fun hleaving ↦ hpc (MainPc.leaving_of_driver hleaving), MainPc.driver_ne_ended⟩
      have hraise : Driver.step settings (o.driver settings) .raise = some { o.driver settings with
          state := .FAILED
          pc := .leaving
          thread := if settings.use_langgraph then none else o.thread } := by
        rw [Driver.step, if_neg hplace]
        rfl
      have hreaches := (Machine.Reaches.refl (Driver.step settings) (o.driver settings)).tail hraise
      rw [← Option.some.inj h, raise]
      split
      next hgraph =>
        obtain ⟨connections, heq⟩ := closeMain_eq o m
        rw [if_pos hgraph] at hreaches
        rw [heq]
        exact hreaches.tail (e := .leave) rfl
      next hgraph =>
        rw [if_neg hgraph] at hreaches
        exact hreaches
  | cancelled =>
    simp only [mainStep] at h
    split at h
    next pc =>
      have hplace : (o.driver settings).pc = .finishing := by rw [driver_main main, pc]; rfl
      have hroute : Driver.step settings (o.driver settings) .route =
          some { o.driver settings with thread := none } := by
        rw [Driver.step, if_pos hplace]
      have hcancelled : Driver.step settings { o.driver settings with thread := none } .cancelled =
          some { o.driver settings with state := .CANCELLED, pc := .leaving, thread := none } := by
        rw [Driver.step, if_pos ⟨hplace, rfl⟩]
      rw [← Option.some.inj h]
      exact ((Machine.Reaches.refl _ _).tail hroute).tail hcancelled
    next => cases h
  | leave =>
    simp only [mainStep] at h
    split at h
    next pc =>
      obtain ⟨connections, heq⟩ := closeMain_eq o m
      have hplace : (o.driver settings).pc = .leaving := by rw [driver_main main, pc]; rfl
      have hleave : Driver.step settings (o.driver settings) .leave =
          some { o.driver settings with pc := .ended } := by
        rw [Driver.step, if_pos hplace]
      rw [← Option.some.inj h, heq]
      exact (Machine.Reaches.refl _ _).tail hleave
    next => cases h

/-- Neither an execution nor an agent writes a column of the assessment other than the frozen skills. -/
theorem follows_executionStep {j : ℕ} {x : Execution} {e : ExecutionEvent}
    (h : executionStep registry record settings o j x e = some o') : Follows settings o o' := by
  cases e with
  | begin now =>
    simp only [executionStep] at h
    split at h
    · rw [← Option.some.inj h, execute_approved_steps]
      split_ifs <;> exact .of_eq rfl
    · cases h
  | dispatch =>
    simp only [executionStep] at h
    split at h
    next steps pc =>
      obtain ⟨tasks, -, rfl⟩ := Option.map_eq_some_iff.1 h
      exact .of_eq (driver_freeze o)
    next => cases h
  | deliver i noticed =>
    simp only [executionStep] at h
    split at h
    next pool pc =>
      obtain ⟨⟨t, error⟩, -, rfl⟩ := Option.map_eq_some_iff.1 h
      dsimp only
      split_ifs <;> exact .of_eq rfl
    next => cases h
  | scored =>
    simp only [executionStep] at h
    split at h
    · exact Option.some.inj h ▸ .of_eq (driver_phase_score o)
    · cases h
  | drained =>
    simp only [executionStep] at h
    split at h
    · split at h
      · exact Option.some.inj h ▸ .of_eq rfl
      · cases h
    · cases h
  | send | validated =>
    simp only [executionStep] at h
    split at h
    · exact Option.some.inj h ▸ .of_eq rfl
    · cases h
  | raise =>
    simp only [executionStep] at h
    split at h
    · cases h
    · exact Option.some.inj h ▸ .of_eq rfl

omit u in
theorem follows_taskStep {i : ℕ} {t : AgentTask} {e : TaskEvent}
    (h : taskStep settings o i t e = some o') : Follows settings o o' := by
  cases e with
  | begin noticed =>
    simp only [taskStep] at h
    split at h
    · exact Option.some.inj h ▸ .of_eq rfl
    · cases h
  | act invoke =>
    simp only [taskStep] at h
    split at h
    · split at h
      · rw [← Option.some.inj h]
        split <;> exact .of_eq rfl
      · cases h
    · cases h
  | send =>
    simp only [taskStep] at h
    split at h
    · split at h
      · exact Option.some.inj h ▸ .of_eq rfl
      · cases h
    · cases h
  | receive =>
    simp only [taskStep] at h
    split at h
    · split at h
      · cases h
      · exact Option.some.inj h ▸ .of_eq rfl
    · cases h
  | finish error =>
    simp only [taskStep] at h
    split at h
    · exact Option.some.inj h ▸ .of_eq rfl
    · cases h

omit u in
/-- A decision may resume a parked run. -/
theorem follows_resume_if_parked {o₁ : Orchestrator} (h : o₁.driver settings = o.driver settings) :
    Follows settings o (_resume_if_parked settings o₁) := by
  rw [_resume_if_parked]
  split
  · exact .of_eq h
  next hparked =>
    split
    · obtain ⟨idle, hstate⟩ := not_or.1 hparked
      have hplace : (o.driver settings).pc = .ended ∧ (o.driver settings).state = .POLICY_CHECK := by
        rw [← h]
        cases hmain : o₁.main with
        | none => exact ⟨by rw [driver, hmain]; rfl, not_not.1 hstate⟩
        | some m => exact absurd (by rw [hmain]; rfl) idle
      refine ⟨[.resume], ?_⟩
      rw [Machine.run_cons, Driver.step, if_pos hplace, driver_start_assessment, h]
      rfl
    · exact .of_eq h

omit u in
theorem driver_sweep (idle : o.main = none) :
    (resume_incomplete_assessments settings o).driver settings = (o.driver settings).sweep settings := by
  rw [resume_incomplete_assessments]
  split
  next hleft =>
    have hdone : o.assessment.state ∈ TERMINAL_STATES ∨ o.assessment.started = false :=
      hleft.imp id fun h ↦ h.resolve_right (by simp [idle])
    rw [Driver.sweep]
    exact (if_pos hdone).symm
  next hleft =>
    have hopen : ¬(o.assessment.state ∈ TERMINAL_STATES ∨ o.assessment.started = false) :=
      fun hdone ↦ hleft (hdone.imp id Or.inl)
    rw [Driver.sweep]
    refine Eq.trans ?_ (if_neg hopen).symm
    split
    next hpending =>
      rw [driver_start_assessment]
      exact (if_pos hpending).symm
    next hpending =>
      refine (driver_start_assessment _).trans ?_
      exact (if_neg hpending).symm

/-- **What the orchestrator does in a step, the driver can do in a few.** -/
theorem follows_of_step {e : EngineEvent} (h : step registry record settings o e = some o') :
    Follows settings o o' := by
  cases e with
  | main e =>
    obtain ⟨m, main, h⟩ := Option.bind_eq_some_iff.1 h
    exact follows_mainStep main h
  | execution j e =>
    obtain ⟨x, -, h⟩ := Option.bind_eq_some_iff.1 h
    exact follows_executionStep h
  | task i e =>
    obtain ⟨t, -, h⟩ := Option.bind_eq_some_iff.1 h
    exact follows_taskStep h
  | start reset =>
    rw [← Option.some.inj h, start]
    split
    next hstate =>
      have hstart : Driver.step settings (o.driver settings) (.start reset) =
          some ({ o.driver settings with
            cancel_requested := o.assessment.cancel_requested && !reset }.launch settings) := by
        rw [Driver.step]
        exact if_pos hstate
      refine ⟨[.start reset], ?_⟩
      rw [Machine.run_cons, hstart, driver_start_assessment]
      cases reset with
      | true => simp [driver]
      | false => simp [driver]
    next => exact .of_eq rfl
  | cancel =>
    rw [← Option.some.inj h, cancel]
    split
    next => exact .of_eq rfl
    next hstate =>
      have hcancel : Driver.step settings (o.driver settings) .cancel = some { o.driver settings with
          cancel_requested := true
          state := if (o.driver settings).pc = .ended then .CANCELLED else o.assessment.state } := by
        rw [Driver.step]
        exact if_neg hstate
      refine ⟨[.cancel], ?_⟩
      rw [Machine.run_cons, hcancel]
      cases hmain : o.main with
      | none => simp [driver, setState, hmain]
      | some m => simp [driver, hmain, MainPc.driver_ne_ended]
  | cancel_all =>
    rw [← Option.some.inj h, cancel_all]
    split
    next => exact .of_eq rfl
    next hstate =>
      have hcancel : Driver.step settings (o.driver settings) .cancel_all =
          some { o.driver settings with cancel_requested := true } := by
        rw [Driver.step]
        exact if_neg hstate
      exact (Machine.Reaches.refl _ _).tail hcancel
  | approve step_id user_id note =>
    rw [← Option.some.inj h, approve_step]
    split
    · dsimp only
      split
      · rw [start_approved_steps]
        split <;> exact .of_eq rfl
      · exact follows_resume_if_parked rfl
    · exact .of_eq rfl
  | deny step_id user_id note =>
    rw [← Option.some.inj h, deny_step]
    split
    · exact follows_resume_if_parked rfl
    · exact .of_eq rfl
  | triage => exact Option.some.inj h ▸ .of_eq rfl
  | ingest found => exact Option.some.inj h ▸ .of_eq (driver_addEndpoints o found)
  | register skills => exact Option.some.inj h ▸ .of_eq rfl
  | restart =>
    refine ⟨[.restart], ?_⟩
    rw [Machine.run_cons, ← Option.some.inj h, driver_sweep rfl]
    rfl

end Orchestrator

section

attribute [local instance] asciiTables

end

end Sentrik
