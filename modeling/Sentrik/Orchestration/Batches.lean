import Sentrik.Agents.Brain
import Sentrik.Library.Machine
import Sentrik.Orchestration.Dossier

/-!
# Batches of agents

A batch is the agents of one call of `_phase_execute` or of `_execute_step_batch`: its pool runs them, and
its consumer takes their results and writes them, each in one transaction. The consumer looks for a reason
to stop **before** it writes the result it has in hand; the main pass goes on to run agents with an error
again.

A step is one thing that can happen between two suspensions: an agent gets its place in the pool, or hears
from its brain, or from its tool; its time is up; the pool hands over the results that are there; the
consumer takes one. Results are handed over in groups: whatever is finished when the pool looks, in any
order. Tasks of the pool outlive the loop over their results.

`Crew` is all batches of an assessment, and what they have written. `calls` are the calls of
`_persist_agent_result`, and `store_of_run` says that the store is what these have written.
-/

namespace Sentrik

/-! ### Agents -/

/-- An entry of an agent's trail. The batch and the place in it stand for the id of the agent. -/
structure DecisionRecord where
  agent_id : ℕ × ℕ
  role : String
  phase : String
  action : Text
  brain_source : String
  reasoning : Text
  deriving DecidableEq, Repr

structure AgentResult where
  agent_id : ℕ × ℕ
  role : String
  findings : List Dossier.RawFinding := []
  decisions : List DecisionRecord := []
  error : Text := []
  steps_used : ℕ := 0
  deriving DecidableEq, Repr

/-- A specialist. -/
structure Agent where
  id : ℕ × ℕ
  role : String
  max_steps : ℕ := 6
  /-- Whether its endpoint has parameters to inject into. -/
  injectable : Bool := false
  _decisions : List DecisionRecord := []
  deriving DecidableEq, Repr

/-- Where a call of `Agent.run` is. -/
inductive Run
  /-- The brain is asked. -/
  | consulting (step : ℕ)
  /-- The tool is at work. -/
  | acting (step : ℕ)
  | returned (result : AgentResult)
  deriving DecidableEq, Repr

inductive RunEvent
  | consult (decision : BrainDecision)
  /-- A hook forbids the tool. -/
  | veto (reason : Text)
  /-- What the tool finds, each with whether there is evidence. -/
  | act (findings : List (Dossier.RawFinding × Bool))
  | raise (kind message : Text)

/-- Findings without evidence are dropped, but for two classes. -/
def _verify (findings : List (Dossier.RawFinding × Bool)) : List Dossier.RawFinding :=
  (findings.filter fun f ↦
    f.2 || ["security_headers", "info_disclosure"].contains f.1.check_class).map Prod.fst

namespace Agent

/-- Add to the trail. -/
def decided (a : Agent) (phase : String) (action : Text) (brain_source : String) (reasoning : Text) :
    Agent :=
  { a with _decisions := a._decisions ++ [⟨a.id, a.role, phase, action, brain_source, reasoning⟩] }

/-- The result of a run that comes to its end: the whole trail goes into it. -/
def result (a : Agent) (findings : List Dossier.RawFinding) : AgentResult where
  agent_id := a.id
  role := a.role
  findings
  decisions := a._decisions
  steps_used := a._decisions.length

/-- The result of a run that raised. -/
def failure (a : Agent) (error : Text) : AgentResult where
  agent_id := a.id
  role := a.role
  decisions := a._decisions
  error

/-- The result the pool makes up: it has no trail. -/
def aborted (a : Agent) (error : Text) : AgentResult where
  agent_id := a.id
  role := a.role
  error

/-- The head of the loop. -/
def loop (a : Agent) (step : ℕ) : Run :=
  if step < a.max_steps then .consulting step else .returned (a.result [])

def _can_revise (a : Agent) (step : ℕ) : Bool := step = 0 && a.injectable

/-- After the tool. -/
def observed (a : Agent) (step : ℕ) (findings : List (Dossier.RawFinding × Bool)) : Run :=
  if _verify findings ≠ [] then .returned (a.result (_verify findings))
  else if a._can_revise step then a.loop (step + 1)
  else .returned (a.result [])

/-- One step of `run`. -/
def runStep (a : Agent) : Run → RunEvent → Option (Agent × Run)
  | .consulting step, .consult d =>
    let a := a.decided (if step = 0 then "inspect_plan" else "revise") d.action d.source d.reasoning
    some (a, if d.action = "skip".toList ∨ d.action = "stop".toList then .returned (a.result [])
      else .acting step)
  | .acting step, .veto reason =>
    let a := a.decided "act" "vetoed".toList "hook" (reason.take 280)
    some (a, a.observed step [])
  | .acting step, .act findings => some (a, a.observed step findings)
  | .consulting _, .raise kind message | .acting _, .raise kind message =>
    some (a, .returned (a.failure (kind ++ ": ".toList ++ message)))
  | _, _ => none

end Agent

/-! ### What is written -/

/-- A row of the table of jobs. Its key is made of the agent and the attempt. -/
structure ResultJob where
  plan_step_id : ℕ
  agent_id : ℕ × ℕ
  attempts : ℕ
  failed : Bool
  error : Text
  findings : ℕ
  decisions : List DecisionRecord
  deriving DecidableEq, Repr

/-- An `agent.decision` row of the audit log. -/
structure DecisionRow where
  actor : ℕ × ℕ
  data : DecisionRecord
  deriving DecidableEq, Repr

structure StoredFinding where
  endpoint_id : ℕ
  dedup_key : Text
  raw : Dossier.RawFinding
  deriving DecidableEq, Repr

structure ResultStore where
  steps : List PlanStep := []
  jobs : List ResultJob := []
  audit : List DecisionRow := []
  findings : List StoredFinding := []
  deriving DecidableEq, Repr

/-- The arguments of a call of `_persist_agent_result`, with the fingerprint of the step's endpoint. -/
structure PersistCall where
  step : PlanStep
  fingerprint : Text
  result : AgentResult
  attempts : ℕ
  deriving DecidableEq, Repr

namespace ResultStore

section

variable (digest : Text → Text)

/-- Store a finding, unless there is one under its key. -/
def _persist_finding (step : PlanStep) (fingerprint : Text) (store : ResultStore)
    (rf : Dossier.RawFinding) : ResultStore :=
  let dedup_key := rf.dedup_key digest fingerprint
  if store.findings.any (·.dedup_key = dedup_key) then store
  else { store with findings := store.findings ++ [⟨step.endpoint_id, dedup_key, rf⟩] }

def _persist_agent_result (store : ResultStore) (call : PersistCall) : ResultStore :=
  let error := decide (call.result.error ≠ [])
  call.result.findings.foldl (_persist_finding digest call.step call.fingerprint)
    { store with
      jobs := store.jobs ++ [{
        plan_step_id := call.step.id
        agent_id := call.result.agent_id
        attempts := call.attempts
        failed := error
        error := call.result.error
        findings := call.result.findings.length
        decisions := call.result.decisions }]
      steps := store.steps.map fun s ↦
        if s.id = call.step.id then { s with status := Orchestrator.resultStatus error } else s
      audit := store.audit ++ call.result.decisions.map (⟨call.result.agent_id, ·⟩) }

end

/-- What the audit log has of an agent's decisions. -/
def trailOf (store : ResultStore) (agent : ℕ × ℕ) : List DecisionRecord :=
  (store.audit.filter (·.actor = agent)).map (·.data)

section

variable {digest : Text → Text} {step : PlanStep} {fingerprint : Text}

/-- Storing findings adds rows of findings: one under each key that had none. -/
theorem foldl_persist_finding (found : List Dossier.RawFinding) (store : ResultStore) :
    ∃ rows, found.foldl (_persist_finding digest step fingerprint) store =
        { store with findings := store.findings ++ rows } ∧
      (∀ rf ∈ found, ∃ row ∈ store.findings ++ rows, row.dedup_key = rf.dedup_key digest fingerprint) ∧
        ((store.findings.map (·.dedup_key)).Nodup →
          ((store.findings ++ rows).map (·.dedup_key)).Nodup) := by
  induction found generalizing store with
  | nil => exact ⟨[], by simp, by simp, by simp⟩
  | cons rf found ih =>
    rw [List.foldl_cons]
    obtain ⟨rows, heq, hstored, hnodup⟩ := ih (_persist_finding digest step fingerprint store rf)
    rw [heq]
    by_cases hknown : store.findings.any (·.dedup_key = rf.dedup_key digest fingerprint) = true
    · have hsame : _persist_finding digest step fingerprint store rf = store := if_pos hknown
      rw [hsame] at hstored hnodup ⊢
      refine ⟨rows, rfl, fun rf' hrf' ↦ ?_, hnodup⟩
      rcases List.mem_cons.1 hrf' with rfl | hrf'
      · obtain ⟨row, hrow, hkey⟩ := List.any_eq_true.1 hknown
        exact ⟨row, List.mem_append_left _ hrow, of_decide_eq_true hkey⟩
      · exact hstored rf' hrf'
    · have hadd : _persist_finding digest step fingerprint store rf = { store with
          findings := store.findings ++ [⟨step.endpoint_id, rf.dedup_key digest fingerprint, rf⟩] } :=
        if_neg hknown
      rw [hadd] at hstored hnodup ⊢
      refine ⟨⟨step.endpoint_id, rf.dedup_key digest fingerprint, rf⟩ :: rows, ?_, fun rf' hrf' ↦ ?_,
        fun hold ↦ ?_⟩
      · simp
      · rcases List.mem_cons.1 hrf' with rfl | hrf'
        · exact ⟨_, List.mem_append_right _ List.mem_cons_self, rfl⟩
        · obtain ⟨row, hrow, hkey⟩ := hstored rf' hrf'
          exact ⟨row, by simpa using hrow, hkey⟩
      · have hnew : rf.dedup_key digest fingerprint ∉ store.findings.map (·.dedup_key) := fun hmem ↦ by
          obtain ⟨row, hrow, hkey⟩ := List.mem_map.1 hmem
          exact hknown (List.any_eq_true.2 ⟨row, hrow, decide_eq_true hkey⟩)
        have hboth := hnodup (by
          rw [List.map_append]
          refine List.nodup_append.2 ⟨hold, List.nodup_singleton _, fun a ha b hb heq ↦ ?_⟩
          have hkey : b = rf.dedup_key digest fingerprint := List.mem_singleton.1 hb
          exact hnew (by rwa [← hkey, ← heq]))
        simpa using hboth

/-- **What one call writes**: a job, the status of the step, the decisions, and a row for every finding
whose key has none. -/
theorem writes_of_persist (store : ResultStore) (call : PersistCall) :
    let store' := store._persist_agent_result digest call
    (∃ job : ResultJob, store'.jobs = store.jobs ++ [job] ∧ job.agent_id = call.result.agent_id ∧
        job.attempts = call.attempts ∧ job.findings = call.result.findings.length ∧
          job.decisions = call.result.decisions) ∧
      (∀ s ∈ store'.steps, s.id = call.step.id →
        s.status = Orchestrator.resultStatus (decide (call.result.error ≠ []))) ∧
        store'.audit = store.audit ++ call.result.decisions.map (⟨call.result.agent_id, ·⟩) ∧
          (∀ rf ∈ call.result.findings,
            ∃ row ∈ store'.findings, row.dedup_key = rf.dedup_key digest call.fingerprint) ∧
            ((store.findings.map (·.dedup_key)).Nodup → (store'.findings.map (·.dedup_key)).Nodup) := by
  intro store'
  obtain ⟨rows, heq, hstored, hnodup⟩ := @foldl_persist_finding digest call.step call.fingerprint
    call.result.findings { store with
      jobs := store.jobs ++ [{
        plan_step_id := call.step.id
        agent_id := call.result.agent_id
        attempts := call.attempts
        failed := decide (call.result.error ≠ [])
        error := call.result.error
        findings := call.result.findings.length
        decisions := call.result.decisions }]
      steps := store.steps.map fun s ↦
        if s.id = call.step.id then
          { s with status := Orchestrator.resultStatus (decide (call.result.error ≠ [])) } else s
      audit := store.audit ++ call.result.decisions.map (⟨call.result.agent_id, ·⟩) }
  have hstore : store' = _ := heq
  rw [hstore]
  refine ⟨⟨_, rfl, rfl, rfl, rfl, rfl⟩, fun s hs hid ↦ ?_, rfl, hstored, hnodup⟩
  obtain ⟨r, -, rfl⟩ := List.mem_map.1 hs
  split at hid
  next hmatch => rw [if_pos hmatch]
  next hmatch => exact absurd hid hmatch

end

end ResultStore

/-! ### Batches -/

/-- Where an agent of a batch is. -/
inductive SlotState
  /-- For a place in the pool. -/
  | waiting
  | running (run : Run)
  /-- Its task is done, and nobody has written the result. -/
  | finished (result : AgentResult)
  /-- Its result is written. -/
  | taken (result : AgentResult)
  /-- The consumer runs it again. -/
  | rerunning (attempts : ℕ) (run : Run)
  deriving DecidableEq, Repr

structure Slot where
  agent : Agent
  step : PlanStep
  fingerprint : Text := []
  state : SlotState := .waiting
  deriving DecidableEq, Repr

/-- Where the consumer of a batch is. -/
inductive BatchPc
  /-- In the loop over the results, with those that the pool has handed over. -/
  | streaming (group errored : List ℕ)
  /-- Before a round of retries. -/
  | between (attempt : ℕ) (errored : List ℕ)
  | round (attempt : ℕ) (queue errored : List ℕ)
  | rerunning (attempt i : ℕ) (queue errored : List ℕ)
  /-- What comes after the results. -/
  | closing
  | returned
  deriving DecidableEq, Repr

structure Batch where
  /-- A batch of `_phase_execute`. -/
  main : Bool
  slots : List Slot
  pc : BatchPc := .streaming [] []
  /-- `controller.cancelled` -/
  cancelled : Bool := false
  deriving DecidableEq, Repr

inductive BatchEvent
  /-- An agent gets a place. `noticed`: the controller says stop. -/
  | start (i : ℕ) (noticed : Bool)
  | run (i : ℕ) (e : RunEvent)
  /-- The time of an agent is up. -/
  | timeout (i : ℕ)
  /-- The pool hands over what is finished. -/
  | wait (group : List ℕ)
  /-- The consumer takes a result. `noticed`: it sees a cancellation, the deadline or the health stop. -/
  | deliver (noticed : Bool)
  | drained
  | retry (noticed : Bool)
  | rerun
  | settle
  | leave

/-- Whether the consumer is in the loop over the results. -/
def BatchPc.streams : BatchPc → Bool
  | .streaming .. => true
  | _ => false

/-- The agents that have had an error and have not been run again since. -/
def BatchPc.errored : BatchPc → List ℕ
  | .streaming _ errored | .between _ errored => errored
  | .round _ queue errored | .rerunning _ _ queue errored => queue ++ errored
  | .closing | .returned => []

/-- Of a task in the pool. -/
def SlotState.ofRun : Run → SlotState
  | .returned result => .finished result
  | run => .running run

def SlotState.isRunning : SlotState → Bool
  | .running _ => true
  | _ => false

def SlotState.isFinished : SlotState → Bool
  | .finished _ => true
  | _ => false

def SlotState.isTaken : SlotState → Bool
  | .taken _ => true
  | _ => false

def Slot.call (s : Slot) (result : AgentResult) (attempts : ℕ) : PersistCall where
  step := s.step
  fingerprint := s.fingerprint
  result
  attempts

namespace Batch

def setSlot (b : Batch) (i : ℕ) (s : Slot) : Batch := { b with slots := b.slots.set i s }

def runningCount (b : Batch) : ℕ :=
  b.slots.countP (·.state.isRunning)

/-- The tasks of the pool that are done. -/
def finishedTasks (b : Batch) : List ℕ :=
  (List.range b.slots.length).filter fun i ↦ b.slots[i]?.any (·.state.isFinished)

section

variable (settings : Settings)

/-- A task of the pool gets its place: it is skipped, or begins to run. -/
def startTask (b : Batch) (i : ℕ) (noticed : Bool) : Option Batch :=
  b.slots[i]?.bind fun s ↦
    match s.state with
    | .waiting =>
      if b.runningCount < max 1 settings.execution_concurrency ∧ (b.cancelled = true → noticed = true) then
        some (b.setSlot i { s with state :=
          if noticed then .finished (s.agent.aborted "cancelled".toList) else .ofRun (s.agent.loop 0) })
      else none
    | _ => none

/-- A run of an agent goes on, in the pool or again. -/
def runAgent (b : Batch) (i : ℕ) (e : RunEvent) : Option Batch :=
  b.slots[i]?.bind fun s ↦
    match s.state with
    | .running run =>
      (s.agent.runStep run e).map fun (agent, run) ↦
        b.setSlot i { s with agent, state := .ofRun run }
    | .rerunning attempts run =>
      (s.agent.runStep run e).map fun (agent, run) ↦
        b.setSlot i { s with agent, state := .rerunning attempts run }
    | _ => none

def timeoutTask (b : Batch) (i : ℕ) : Option Batch :=
  b.slots[i]?.bind fun s ↦
    match s.state with
    | .running _ => some (b.setSlot i { s with state := .finished (s.agent.aborted "timeout".toList) })
    | _ => none

/-- The consumer takes a result. It looks for a reason to stop, then writes. The main pass tells the
controller when it stops. -/
def deliver (b : Batch) (noticed : Bool) : Option (Batch × List PersistCall) :=
  match b.pc with
  | .streaming (i :: group) errored =>
    if noticed then some ({ b with pc := .closing, cancelled := b.cancelled || b.main }, [])
    else
      b.slots[i]?.bind fun s ↦
        match s.state with
        | .finished result =>
          some ({ b.setSlot i { s with state := .taken result } with
              pc := .streaming group (if result.error ≠ [] then errored ++ [i] else errored) },
            [s.call result 1])
        | _ => none
  | _ => none

/-- The head of the loop over the attempts. -/
def nextRound (attempt : ℕ) (errored : List ℕ) (noticed : Bool) : BatchPc :=
  if attempt < settings.max_step_retries + 2 ∧ errored ≠ [] ∧ noticed = false then
    BatchPc.round attempt errored []
  else BatchPc.closing

/-- The consumer begins to run an agent again, or goes on to the next round. -/
def rerun (b : Batch) : Option Batch :=
  match b.pc with
  | .round attempt [] errored => some { b with pc := .between (attempt + 1) errored }
  | .round attempt (i :: queue) errored =>
    b.slots[i]?.bind fun s ↦
      match s.state with
      | .taken _ =>
        some { b.setSlot i { s with state := .rerunning attempt (s.agent.loop 0) } with
          pc := .rerunning attempt i queue errored }
      | _ => none
  | _ => none

/-- The result of an agent that was run again is written. -/
def settle (b : Batch) : Option (Batch × List PersistCall) :=
  match b.pc with
  | .rerunning attempt i queue errored =>
    b.slots[i]?.bind fun s ↦
      match s.state with
      | .rerunning attempts (.returned result) =>
        some ({ b.setSlot i { s with state := .taken result } with
            pc := .round attempt queue (if result.error ≠ [] then errored ++ [i] else errored) },
          [s.call result attempts])
      | _ => none
  | _ => none

/-- **One step of a batch**, with the call of `_persist_agent_result` it makes, if it makes one. -/
def step (b : Batch) : BatchEvent → Option (Batch × List PersistCall)
  | .start i noticed => (b.startTask settings i noticed).map (·, [])
  | .run i e => (b.runAgent i e).map (·, [])
  | .timeout i => (b.timeoutTask i).map (·, [])
  | .wait group =>
    match b.pc with
    | .streaming [] errored =>
      if group ≠ [] ∧ group.Perm b.finishedTasks then some ({ b with pc := .streaming group errored }, [])
      else none
    | _ => none
  | .deliver noticed => b.deliver noticed
  | .drained =>
    match b.pc with
    | .streaming [] errored =>
      if b.slots.all (·.state.isTaken) then
        some ({ b with pc := if b.main then .between 2 errored else .closing }, [])
      else none
    | _ => none
  | .retry noticed =>
    match b.pc with
    | .between attempt errored => some ({ b with pc := nextRound settings attempt errored noticed }, [])
    | _ => none
  | .rerun => b.rerun.map (·, [])
  | .settle => b.settle
  | .leave => if b.pc = .closing then some ({ b with pc := .returned }, []) else none

end

end Batch

/-! ### The batches of an assessment -/

/-- An agent to be. -/
structure AgentSpec where
  role : String
  max_steps : ℕ := 6
  injectable : Bool := false
  step : PlanStep
  fingerprint : Text := []
  deriving DecidableEq, Repr

structure Crew where
  store : ResultStore := {}
  batches : List Batch := []
  deriving DecidableEq, Repr

inductive CrewEvent
  /-- A batch begins: of `_phase_execute`, or of `_execute_step_batch`. -/
  | dispatch (main : Bool) (agents : List AgentSpec)
  | batch (k : ℕ) (e : BatchEvent)

/-- The `k`-th batch, as it begins. -/
def Batch.ofSpecs (k : ℕ) (main : Bool) (agents : List AgentSpec) : Batch where
  main
  slots := agents.mapIdx fun i a ↦ {
    agent := { id := (k, i), role := a.role, max_steps := a.max_steps, injectable := a.injectable }
    step := a.step
    fingerprint := a.fingerprint }

namespace Crew

/-- The batches of an assessment with these steps, before there are any. -/
def start (steps : List PlanStep) : Crew where
  store := { steps }

section

variable (digest : Text → Text) (settings : Settings)

/-- **One step of an assessment's batches.** -/
def step (c : Crew) : CrewEvent → Option Crew
  | .dispatch main agents =>
    some { c with batches := c.batches ++ [.ofSpecs c.batches.length main agents] }
  | .batch k e =>
    c.batches[k]?.bind fun b ↦ (b.step settings e).map fun (b', calls) ↦ {
      store := calls.foldl (·._persist_agent_result digest ·) c.store
      batches := c.batches.set k b' }

end

end Crew

/-! ### What a step leaves to see -/

inductive CrewNote
  /-- A run of an agent has come to its end, before its batch has returned. -/
  | ended (result : AgentResult)
  /-- `_persist_agent_result` has been called. -/
  | persisted (call : PersistCall)
  deriving DecidableEq, Repr

/-- The result of a run that has come to its end and is not written. -/
def SlotState.ended : SlotState → List AgentResult
  | .finished result | .rerunning _ (.returned result) => [result]
  | _ => []

namespace Crew

/-- The runs that come to their end by a step. -/
def ends (c : Crew) (e : CrewEvent) (c' : Crew) : List AgentResult :=
  match e with
  | .batch k (.run i _) =>
    if (c.batches[k]?).any (·.pc = .returned) then []
    else ((c'.batches[k]?).bind (·.slots[i]?)).elim [] (·.state.ended)
  | _ => []

/-- The calls that a step makes. -/
def calls (settings : Settings) (c : Crew) : CrewEvent → List PersistCall
  | .batch k e => ((c.batches[k]?).bind (·.step settings e)).elim [] Prod.snd
  | .dispatch .. => []

def notes (settings : Settings) (c : Crew) (e : CrewEvent) (c' : Crew) : List CrewNote :=
  (ends c e c').map .ended ++ (calls settings c e).map .persisted

end Crew

/-- The calls among notes. -/
def CrewNote.call : CrewNote → Option PersistCall
  | .persisted call => some call
  | .ended _ => none

namespace Crew

section

variable {digest : Text → Text} {settings : Settings} {c c' : Crew} {e : CrewEvent}

theorem calls_of_notes : (notes settings c e c').filterMap CrewNote.call = calls settings c e := by
  rw [notes, List.filterMap_append, List.filterMap_map, List.filterMap_map]
  have hends : (ends c e c').filterMap (CrewNote.call ∘ .ended) = [] :=
    List.filterMap_eq_nil_iff.2 fun r _ ↦ rfl
  have hcalls : (calls settings c e).filterMap (CrewNote.call ∘ .persisted) = calls settings c e :=
    List.filterMap_some
  rw [hends, hcalls, List.nil_append]

theorem store_of_step (h : step digest settings c e = some c') :
    c'.store = (calls settings c e).foldl (·._persist_agent_result digest ·) c.store := by
  cases e with
  | dispatch main agents =>
    obtain rfl := Option.some.inj h
    rfl
  | batch k e =>
    obtain ⟨b, hb, h⟩ := Option.bind_eq_some_iff.1 h
    obtain ⟨⟨b', written⟩, hstep, rfl⟩ := Option.map_eq_some_iff.1 h
    rw [calls, hb, Option.bind_some, hstep]
    rfl

/-- **The store is what the calls have written.** -/
theorem store_of_run {es : List CrewEvent} (h : Machine.run (step digest settings) c es = some c') :
    c'.store = ((Machine.trace (step digest settings) (notes settings) c es).filterMap
      CrewNote.call).foldl (·._persist_agent_result digest ·) c.store := by
  refine Machine.inv_of_trace_along (C := fun _ _ ↦ True)
    (I := fun (t : Crew) w ↦ t.store =
      (w.filterMap CrewNote.call).foldl (·._persist_agent_result digest ·) c.store)
    (fun hI _ hs ↦ ?_) (Machine.along_of_forall (fun _ _ ↦ trivial) _ _) h rfl
  rw [List.filterMap_append, calls_of_notes, List.foldl_append, ← hI]
  exact store_of_step hs

end

end Crew

/-! ### What one step of a run is -/

/-- Whether the trail gets an entry. -/
def RunEvent.decides : RunEvent → Bool
  | .consult _ | .veto _ => true
  | _ => false

namespace Agent

variable {a a' : Agent} {run run' : Run} {e : RunEvent}

theorem loop_returned {step : ℕ} {r : AgentResult} (h : a.loop step = .returned r) :
    r = a.result [] := by
  rw [loop] at h
  split at h
  · cases h
  · exact (Run.returned.inj h).symm

theorem observed_returned {step : ℕ} {findings : List (Dossier.RawFinding × Bool)} {r : AgentResult}
    (h : a.observed step findings = .returned r) : r = a.result (_verify findings) := by
  rw [observed] at h
  split at h
  · exact (Run.returned.inj h).symm
  next hnone =>
    rw [not_not.1 hnone]
    split at h
    · exact loop_returned h
    · exact (Run.returned.inj h).symm

/-- The result of a run that comes to its end by a step. -/
structure Returns (a : Agent) (e : RunEvent) (r : AgentResult) : Prop where
  agent_id : r.agent_id = a.id
  decisions : r.decisions = a._decisions
  failed : r.error ≠ [] → r.findings = []
  in_time : r.error ≠ "timeout".toList
  found : r.findings ≠ [] → ∃ findings, e = .act findings ∧ _verify findings ≠ []

theorem returns_result : Returns a e (a.result []) :=
  ⟨rfl, rfl, fun h ↦ absurd rfl h, List.cons_ne_nil _ _ |>.symm, fun h ↦ absurd rfl h⟩

/-- The text of an exception has a colon in it. -/
theorem returns_failure {kind message : Text} : Returns a e (a.failure (kind ++ ": ".toList ++ message)) := by
  refine ⟨rfl, rfl, fun _ ↦ rfl, fun heq ↦ ?_, fun hne ↦ absurd rfl hne⟩
  have hcolon : ':' ∈ kind ++ ": ".toList ++ message := by simp
  rw [show kind ++ ": ".toList ++ message = "timeout".toList from heq] at hcolon
  exact absurd hcolon (by decide)

/-- **One step of a run**: the agent stays the same, its trail grows at most by one entry, and if it comes
to its end, the whole trail is in the result. -/
theorem returns_of_runStep (h : a.runStep run e = some (a', run')) :
    a'.id = a.id ∧ (e.decides = false → a'._decisions = a._decisions) ∧
      ∀ r, run' = .returned r → Returns a' e r := by
  cases run with
  | consulting step =>
    cases e with
    | consult d =>
      obtain ⟨rfl, rfl⟩ := Prod.mk.inj (Option.some.inj h)
      refine ⟨rfl, fun hdecides ↦ by (cases hdecides), fun r hr ↦ ?_⟩
      split at hr
      · obtain rfl := Run.returned.inj hr
        exact returns_result
      · cases hr
    | raise kind message =>
      obtain ⟨rfl, rfl⟩ := Prod.mk.inj (Option.some.inj h)
      refine ⟨rfl, fun _ ↦ rfl, fun r hr ↦ ?_⟩
      obtain rfl := Run.returned.inj hr
      exact returns_failure
    | veto | act => cases h
  | acting step =>
    cases e with
    | veto reason =>
      obtain ⟨rfl, rfl⟩ := Prod.mk.inj (Option.some.inj h)
      refine ⟨rfl, fun hdecides ↦ by (cases hdecides), fun r hr ↦ ?_⟩
      rw [observed_returned hr]
      exact returns_result
    | act findings =>
      obtain ⟨rfl, rfl⟩ := Prod.mk.inj (Option.some.inj h)
      refine ⟨rfl, fun _ ↦ rfl, fun r hr ↦ ?_⟩
      rw [observed_returned hr]
      exact ⟨rfl, rfl, fun hne ↦ absurd rfl hne, List.cons_ne_nil _ _ |>.symm,
        fun hfound ↦ ⟨findings, rfl, hfound⟩⟩
    | raise kind message =>
      obtain ⟨rfl, rfl⟩ := Prod.mk.inj (Option.some.inj h)
      refine ⟨rfl, fun _ ↦ rfl, fun r hr ↦ ?_⟩
      obtain rfl := Run.returned.inj hr
      exact returns_failure
    | consult => cases h
  | returned result => cases h

end Agent

/-! ### What one step of a batch is -/

namespace Batch

/-- **What one step of a batch can be**, with the calls it makes. -/
inductive Move (settings : Settings) (b : Batch) : BatchEvent → Batch → List PersistCall → Prop
  | skipped {i : ℕ} {s : Slot} (slot : b.slots[i]? = some s) (waiting : s.state = .waiting) :
    Move settings b (.start i true)
      (b.setSlot i { s with state := .finished (s.agent.aborted "cancelled".toList) }) []
  | started {i : ℕ} {s : Slot} (slot : b.slots[i]? = some s) (waiting : s.state = .waiting) :
    Move settings b (.start i false) (b.setSlot i { s with state := .ofRun (s.agent.loop 0) }) []
  | ran {i : ℕ} {e : RunEvent} {s : Slot} {run run' : Run} {agent : Agent}
    (slot : b.slots[i]? = some s) (state : s.state = .running run)
    (ran : s.agent.runStep run e = some (agent, run')) :
    Move settings b (.run i e) (b.setSlot i { s with agent, state := .ofRun run' }) []
  | reran {i attempts : ℕ} {e : RunEvent} {s : Slot} {run run' : Run} {agent : Agent}
    (slot : b.slots[i]? = some s) (state : s.state = .rerunning attempts run)
    (ran : s.agent.runStep run e = some (agent, run')) :
    Move settings b (.run i e) (b.setSlot i { s with agent, state := .rerunning attempts run' }) []
  | timedOut {i : ℕ} {s : Slot} {run : Run} (slot : b.slots[i]? = some s)
    (state : s.state = .running run) :
    Move settings b (.timeout i)
      (b.setSlot i { s with state := .finished (s.agent.aborted "timeout".toList) }) []
  | waited {group errored : List ℕ} (pc : b.pc = .streaming [] errored) :
    Move settings b (.wait group) { b with pc := .streaming group errored } []
  | stopped {i : ℕ} {group errored : List ℕ} (pc : b.pc = .streaming (i :: group) errored) :
    Move settings b (.deliver true) { b with pc := .closing, cancelled := b.cancelled || b.main } []
  | delivered {i : ℕ} {group errored : List ℕ} {s : Slot} {result : AgentResult}
    (pc : b.pc = .streaming (i :: group) errored) (slot : b.slots[i]? = some s)
    (state : s.state = .finished result) :
    Move settings b (.deliver false)
      { b.setSlot i { s with state := .taken result } with
        pc := .streaming group (if result.error ≠ [] then errored ++ [i] else errored) }
      [s.call result 1]
  | drained {errored : List ℕ} (pc : b.pc = .streaming [] errored)
    (taken : ∀ s ∈ b.slots, s.state.isTaken = true) :
    Move settings b .drained { b with pc := if b.main then .between 2 errored else .closing } []
  | retried {attempt : ℕ} {errored : List ℕ} {noticed : Bool} (pc : b.pc = .between attempt errored) :
    Move settings b (.retry noticed) { b with pc := nextRound settings attempt errored noticed } []
  | next {attempt : ℕ} {errored : List ℕ} (pc : b.pc = .round attempt [] errored) :
    Move settings b .rerun { b with pc := .between (attempt + 1) errored } []
  | rerun {attempt i : ℕ} {queue errored : List ℕ} {s : Slot} {result : AgentResult}
    (pc : b.pc = .round attempt (i :: queue) errored) (slot : b.slots[i]? = some s)
    (state : s.state = .taken result) :
    Move settings b .rerun
      { b.setSlot i { s with state := .rerunning attempt (s.agent.loop 0) } with
        pc := .rerunning attempt i queue errored } []
  | settled {attempt attempts i : ℕ} {queue errored : List ℕ} {s : Slot} {result : AgentResult}
    (pc : b.pc = .rerunning attempt i queue errored) (slot : b.slots[i]? = some s)
    (state : s.state = .rerunning attempts (.returned result)) :
    Move settings b .settle
      { b.setSlot i { s with state := .taken result } with
        pc := .round attempt queue (if result.error ≠ [] then errored ++ [i] else errored) }
      [s.call result attempts]
  | left (pc : b.pc = .closing) : Move settings b .leave { b with pc := .returned } []

section

variable {settings : Settings} {b b' : Batch} {e : BatchEvent} {calls : List PersistCall}

/-- **The inversion.** -/
theorem move_of_step (h : b.step settings e = some (b', calls)) : Move settings b e b' calls := by
  cases e with
  | start i noticed =>
    obtain ⟨t, ht, heq⟩ := Option.map_eq_some_iff.1 h
    obtain ⟨rfl, rfl⟩ := Prod.mk.inj heq
    obtain ⟨s, hs, ht⟩ := Option.bind_eq_some_iff.1 ht
    split at ht
    next hwaiting =>
      split at ht
      · obtain rfl := Option.some.inj ht
        cases noticed with
        | true => exact .skipped hs hwaiting
        | false => exact .started hs hwaiting
      · cases ht
    · cases ht
  | run i e =>
    obtain ⟨t, ht, heq⟩ := Option.map_eq_some_iff.1 h
    obtain ⟨rfl, rfl⟩ := Prod.mk.inj heq
    obtain ⟨s, hs, ht⟩ := Option.bind_eq_some_iff.1 ht
    split at ht
    next run hstate =>
      obtain ⟨⟨agent, run'⟩, hran, rfl⟩ := Option.map_eq_some_iff.1 ht
      exact .ran hs hstate hran
    next attempts run hstate =>
      obtain ⟨⟨agent, run'⟩, hran, rfl⟩ := Option.map_eq_some_iff.1 ht
      exact .reran hs hstate hran
    · cases ht
  | timeout i =>
    obtain ⟨t, ht, heq⟩ := Option.map_eq_some_iff.1 h
    obtain ⟨rfl, rfl⟩ := Prod.mk.inj heq
    obtain ⟨s, hs, ht⟩ := Option.bind_eq_some_iff.1 ht
    split at ht
    next run hstate =>
      obtain rfl := Option.some.inj ht
      exact .timedOut hs hstate
    · cases ht
  | wait group =>
    rw [step] at h
    split at h
    next errored hpc =>
      split at h
      · obtain ⟨rfl, rfl⟩ := Prod.mk.inj (Option.some.inj h)
        exact .waited hpc
      · cases h
    · cases h
  | deliver noticed =>
    rw [step, deliver] at h
    split at h
    next i group errored hpc =>
      cases noticed with
      | true =>
        obtain ⟨rfl, rfl⟩ := Prod.mk.inj (Option.some.inj h)
        exact .stopped hpc
      | false =>
        obtain ⟨s, hs, h⟩ := Option.bind_eq_some_iff.1 h
        split at h
        next result hstate =>
          obtain ⟨rfl, rfl⟩ := Prod.mk.inj (Option.some.inj h)
          exact .delivered hpc hs hstate
        · cases h
    · cases h
  | drained =>
    rw [step] at h
    split at h
    next errored hpc =>
      split at h
      next htaken =>
        obtain ⟨rfl, rfl⟩ := Prod.mk.inj (Option.some.inj h)
        exact .drained hpc (List.all_eq_true.1 htaken)
      · cases h
    · cases h
  | retry noticed =>
    rw [step] at h
    split at h
    next attempt errored hpc =>
      obtain ⟨rfl, rfl⟩ := Prod.mk.inj (Option.some.inj h)
      exact .retried hpc
    · cases h
  | rerun =>
    obtain ⟨t, ht, heq⟩ := Option.map_eq_some_iff.1 h
    obtain ⟨rfl, rfl⟩ := Prod.mk.inj heq
    rw [rerun] at ht
    split at ht
    next attempt errored hpc =>
      obtain rfl := Option.some.inj ht
      exact .next hpc
    next attempt i queue errored hpc =>
      obtain ⟨s, hs, ht⟩ := Option.bind_eq_some_iff.1 ht
      split at ht
      next result hstate =>
        obtain rfl := Option.some.inj ht
        exact .rerun hpc hs hstate
      · cases ht
    · cases ht
  | settle =>
    rw [step, settle] at h
    split at h
    next attempt i queue errored hpc =>
      obtain ⟨s, hs, h⟩ := Option.bind_eq_some_iff.1 h
      split at h
      next attempts result hstate =>
        obtain ⟨rfl, rfl⟩ := Prod.mk.inj (Option.some.inj h)
        exact .settled hpc hs hstate
      · cases h
    · cases h
  | leave =>
    rw [step] at h
    split at h
    next hpc =>
      obtain ⟨rfl, rfl⟩ := Prod.mk.inj (Option.some.inj h)
      exact .left hpc
    · cases h

theorem slot_of_setSlot {i j : ℕ} {s₀ s s' : Slot} (slot : b.slots[i]? = some s₀)
    (h : (b.setSlot i s).slots[j]? = some s') : j = i ∧ s' = s ∨ j ≠ i ∧ b.slots[j]? = some s' := by
  have hlt : i < b.slots.length := (List.getElem?_eq_some_iff.1 slot).1
  rw [setSlot, List.getElem?_set, if_pos hlt] at h
  split at h
  next hij => exact Or.inl ⟨hij.symm, (Option.some.inj h).symm⟩
  next hij => exact Or.inr ⟨fun hji ↦ hij hji.symm, h⟩

/-! ### What is so in every batch -/

/-- The run of the consumer is the only one outside the pool, and the agents that wait for another one
have a written result with an error. -/
structure Coherent (b : Batch) : Prop where
  alone : ∀ {i s attempts run}, b.slots[i]? = some s → s.state = .rerunning attempts run →
    ∃ attempt queue errored, b.pc = .rerunning attempt i queue errored
  nodup : b.pc.errored.Nodup
  failed : ∀ {i s}, i ∈ b.pc.errored → b.slots[i]? = some s →
    ∃ result, s.state = .taken result ∧ result.error ≠ []

theorem Coherent.ofSpecs (k : ℕ) (main : Bool) (agents : List AgentSpec) :
    Coherent (.ofSpecs k main agents) := by
  refine ⟨fun {i s attempts run} hs hstate ↦ ?_, List.nodup_nil, fun hi ↦ by cases hi⟩
  rw [Batch.ofSpecs, List.getElem?_mapIdx] at hs
  obtain ⟨a, -, rfl⟩ := Option.map_eq_some_iff.1 hs
  cases hstate

/-- A step in the pool. -/
theorem Coherent.setSlot (hb : b.Coherent) {i : ℕ} {s₀ s : Slot} (slot : b.slots[i]? = some s₀)
    (untaken : s₀.state.isTaken = false)
    (state : ∀ attempts run, s.state = .rerunning attempts run →
      ∃ attempts run, s₀.state = .rerunning attempts run) : (b.setSlot i s).Coherent := by
  refine ⟨fun {j s' attempts run} hs hstate ↦ ?_, hb.nodup, fun {j s'} hj hs ↦ ?_⟩
  · rcases slot_of_setSlot slot hs with ⟨rfl, rfl⟩ | ⟨-, hs⟩
    · obtain ⟨attempts, run, hrerun⟩ := state _ _ hstate
      exact hb.alone slot hrerun
    · exact hb.alone hs hstate
  · rcases slot_of_setSlot slot hs with ⟨rfl, rfl⟩ | ⟨-, hs⟩
    · obtain ⟨result, htaken, -⟩ := hb.failed hj slot
      rw [htaken] at untaken
      cases untaken
    · exact hb.failed hj hs

/-- The consumer goes on, and takes up no agent. -/
theorem Coherent.setPc (hb : b.Coherent) {pc : BatchPc} {cancelled : Bool}
    (alone : ∀ attempt i queue errored, b.pc ≠ .rerunning attempt i queue errored)
    (errored : pc.errored.Sublist b.pc.errored) :
    Coherent { b with pc, cancelled } := by
  refine ⟨fun hs hstate ↦ ?_, hb.nodup.sublist errored, fun hi hs ↦ hb.failed (errored.subset hi) hs⟩
  obtain ⟨attempt, queue, errored, hpc⟩ := hb.alone hs hstate
  exact absurd hpc (alone _ _ _ _)

theorem nextRound_errored (settings : Settings) (attempt : ℕ) (errored : List ℕ) (noticed : Bool) :
    (nextRound settings attempt errored noticed).errored.Sublist errored := by
  rw [nextRound]
  split
  · rw [BatchPc.errored, List.append_nil]
  · exact List.nil_sublist _

theorem ofRun_ne_rerunning (run : Run) {attempts : ℕ} {run' : Run} :
    SlotState.ofRun run ≠ .rerunning attempts run' := by
  cases run <;> exact fun h ↦ by cases h

/-- A result is written: the agent is in the list again if it failed. -/
theorem Coherent.write (hb : b.Coherent) {i : ℕ} {s : Slot} {result : AgentResult} {pc : BatchPc}
    (slot : b.slots[i]? = some s) (untaken : s.state.isTaken = false)
    (alone : ∀ attempt j queue errored, b.pc = .rerunning attempt j queue errored → j = i)
    (errored : pc.errored = if result.error ≠ [] then b.pc.errored ++ [i] else b.pc.errored) :
    Coherent { b.setSlot i { s with state := .taken result } with pc } := by
  have hnot : i ∉ b.pc.errored := fun hi ↦ by
    obtain ⟨r, htaken, -⟩ := hb.failed hi slot
    rw [htaken] at untaken
    cases untaken
  refine ⟨fun {j s' attempts run} hs hstate ↦ ?_, ?_, fun {j s'} hj hs ↦ ?_⟩
  · rcases slot_of_setSlot slot hs with ⟨rfl, rfl⟩ | ⟨hne, hs⟩
    · cases hstate
    · obtain ⟨attempt, queue, errored, hpc⟩ := hb.alone hs hstate
      exact absurd (alone _ _ _ _ hpc) hne
  · show pc.errored.Nodup
    rw [errored]
    split
    · exact List.nodup_append.2 ⟨hb.nodup, List.nodup_singleton _,
        fun a ha b hb heq ↦ hnot (List.mem_singleton.1 hb ▸ heq ▸ ha)⟩
    · exact hb.nodup
  · change j ∈ pc.errored at hj
    rw [errored] at hj
    rcases slot_of_setSlot slot hs with ⟨rfl, rfl⟩ | ⟨hne, hs⟩
    · split at hj
      next herror => exact ⟨result, rfl, herror⟩
      · exact absurd hj hnot
    · refine hb.failed ?_ hs
      split at hj
      · exact (List.mem_append.1 hj).resolve_right fun hj ↦ hne (List.mem_singleton.1 hj)
      · exact hj

theorem Coherent.move (hb : b.Coherent) (h : Move settings b e b' calls) : b'.Coherent := by
  cases h with
  | skipped slot waiting => exact hb.setSlot slot (by rw [waiting]; rfl) fun _ _ h ↦ by cases h
  | started slot waiting =>
    exact hb.setSlot slot (by rw [waiting]; rfl) fun _ _ h ↦ absurd h (ofRun_ne_rerunning _)
  | ran slot state ran =>
    exact hb.setSlot slot (by rw [state]; rfl) fun _ _ h ↦ absurd h (ofRun_ne_rerunning _)
  | reran slot state ran => exact hb.setSlot slot (by rw [state]; rfl) fun _ _ _ ↦ ⟨_, _, state⟩
  | timedOut slot state => exact hb.setSlot slot (by rw [state]; rfl) fun _ _ h ↦ by cases h
  | waited pc =>
    exact @Coherent.setPc _ hb _ _ (by simp [pc]) (by rw [pc]; exact .refl _)
  | stopped pc => exact @Coherent.setPc _ hb _ _ (by simp [pc]) (List.nil_sublist _)
  | delivered pc slot state =>
    refine hb.write slot (by rw [state]; rfl) (by simp [pc]) ?_
    rw [pc]
    rfl
  | drained pc taken =>
    refine @Coherent.setPc _ hb _ _ (by simp [pc]) ?_
    split
    · rw [pc]
      exact List.Sublist.refl _
    · exact List.nil_sublist _
  | retried pc =>
    refine @Coherent.setPc _ hb _ _ (by simp [pc]) ?_
    rw [pc]
    exact nextRound_errored ..
  | next pc => exact @Coherent.setPc _ hb _ _ (by simp [pc]) (by rw [pc]; exact .refl _)
  | @rerun attempt i queue errored s result pc slot state =>
    have hnodup := hb.nodup
    rw [pc] at hnodup
    have hnot : i ∉ queue ++ errored := (List.nodup_cons.1 hnodup).1
    refine ⟨fun {j s' attempts run} hs hstate ↦ ?_, (List.nodup_cons.1 hnodup).2, fun {j s'} hj hs ↦ ?_⟩
    · rcases slot_of_setSlot slot hs with ⟨rfl, rfl⟩ | ⟨-, hs⟩
      · exact ⟨_, _, _, rfl⟩
      · obtain ⟨attempt', queue', errored', hpc⟩ := hb.alone hs hstate
        rw [pc] at hpc
        cases hpc
    · rcases slot_of_setSlot slot hs with ⟨rfl, rfl⟩ | ⟨-, hs⟩
      · exact absurd hj hnot
      · refine hb.failed ?_ hs
        rw [pc]
        exact List.mem_cons_of_mem _ hj
  | @settled attempt attempts i queue errored s result pc slot state =>
    refine hb.write slot (by rw [state]; rfl) (fun _ _ _ _ hpc ↦ ?_) ?_
    · rw [pc] at hpc
      injection hpc with _ hi
      exact hi.symm
    · rw [pc]
      show queue ++ (if result.error ≠ [] then errored ++ [i] else errored) = _
      split
      · exact (List.append_assoc ..).symm
      · rfl
  | left pc => exact @Coherent.setPc _ hb _ _ (by simp [pc]) (List.nil_sublist _)

end

end Batch

/-- The result in a slot. -/
def SlotState.result : SlotState → Option AgentResult
  | .finished result | .taken result | .rerunning _ (.returned result) => some result
  | _ => none

/-- The agent has this id, and so has its result, which has no findings if it has an error. -/
structure Slot.Sound (a : ℕ × ℕ) (s : Slot) : Prop where
  agent_id : s.agent.id = a
  result : ∀ r ∈ s.state.result, r.agent_id = a ∧ (r.error ≠ [] → r.findings = [])

/-- A result without findings. -/
theorem Slot.Sound.of_quiet {a : ℕ × ℕ} {s : Slot} (hid : s.agent.id = a)
    (quiet : ∀ r ∈ s.state.result, r.agent_id = s.agent.id ∧ r.findings = []) : s.Sound a :=
  ⟨hid, fun r hr ↦ ⟨(quiet r hr).1.trans hid, fun _ ↦ (quiet r hr).2⟩⟩

theorem SlotState.result_ofRun (run : Run) :
    (SlotState.ofRun run).result = (SlotState.rerunning 0 run).result := by
  cases run <;> rfl

theorem returned_of_result {attempts : ℕ} {run : Run} {r : AgentResult}
    (hr : r ∈ (SlotState.rerunning attempts run).result) : run = .returned r := by
  cases run with
  | returned result => rw [Option.some.inj hr]
  | consulting | acting => cases hr

/-- What the loop leaves when it has no step to make. -/
theorem quiet_of_loop {a : Agent} {attempts : ℕ} {r : AgentResult}
    (hr : r ∈ (SlotState.rerunning attempts (a.loop 0)).result) : r = a.result [] :=
  Agent.loop_returned (returned_of_result hr)

namespace Batch

/-- The `k`-th batch. -/
def Sound (k : ℕ) (b : Batch) : Prop := ∀ (i : ℕ) (s : Slot), b.slots[i]? = some s → s.Sound (k, i)

section

variable {settings : Settings} {k : ℕ} {b b' : Batch} {e : BatchEvent} {calls : List PersistCall}

theorem Sound.ofSpecs (k : ℕ) (main : Bool) (agents : List AgentSpec) :
    Sound k (.ofSpecs k main agents) := by
  intro i s hs
  rw [Batch.ofSpecs, List.getElem?_mapIdx] at hs
  obtain ⟨a, -, rfl⟩ := Option.map_eq_some_iff.1 hs
  exact ⟨rfl, fun r hr ↦ by cases hr⟩

theorem Sound.setSlot (hb : b.Sound k) {i : ℕ} {s₀ s : Slot} (slot : b.slots[i]? = some s₀)
    (hs : s.Sound (k, i)) : (b.setSlot i s).Sound k := by
  intro j s' hs'
  rcases slot_of_setSlot slot hs' with ⟨rfl, rfl⟩ | ⟨-, hs'⟩
  · exact hs
  · exact hb j s' hs'

theorem Sound.move (hb : b.Sound k) (h : Move settings b e b' calls) : b'.Sound k := by
  cases h with
  | skipped slot waiting | timedOut slot waiting =>
    refine hb.setSlot slot (.of_quiet (hb _ _ slot).agent_id fun r hr ↦ ?_)
    obtain rfl := Option.some.inj hr
    exact ⟨rfl, rfl⟩
  | started slot waiting =>
    refine hb.setSlot slot (.of_quiet (hb _ _ slot).agent_id fun r hr ↦ ?_)
    rw [SlotState.result_ofRun] at hr
    rw [quiet_of_loop hr]
    exact ⟨rfl, rfl⟩
  | ran slot state ran =>
    obtain ⟨hid, -, hreturns⟩ := Agent.returns_of_runStep ran
    have hagent := hid.trans (hb _ _ slot).agent_id
    refine hb.setSlot slot ⟨hagent, fun r hr ↦ ?_⟩
    rw [SlotState.result_ofRun] at hr
    have hreturned := hreturns r (returned_of_result hr)
    exact ⟨hreturned.agent_id.trans hagent, hreturned.failed⟩
  | reran slot state ran =>
    obtain ⟨hid, -, hreturns⟩ := Agent.returns_of_runStep ran
    have hagent := hid.trans (hb _ _ slot).agent_id
    refine hb.setSlot slot ⟨hagent, fun r hr ↦ ?_⟩
    have hreturned := hreturns r (returned_of_result hr)
    exact ⟨hreturned.agent_id.trans hagent, hreturned.failed⟩
  | waited pc | stopped pc | drained pc taken | retried pc | next pc | left pc => exact hb
  | delivered pc slot state =>
    refine hb.setSlot slot ⟨(hb _ _ slot).agent_id, fun r hr ↦ ?_⟩
    exact (hb _ _ slot).result r (by rw [state]; exact hr)
  | rerun pc slot state =>
    refine hb.setSlot slot (.of_quiet (hb _ _ slot).agent_id fun r hr ↦ ?_)
    rw [quiet_of_loop hr]
    exact ⟨rfl, rfl⟩
  | settled pc slot state =>
    refine hb.setSlot slot ⟨(hb _ _ slot).agent_id, fun r hr ↦ ?_⟩
    exact (hb _ _ slot).result r (by rw [state]; exact hr)

/-- What a batch writes is of its agents. -/
theorem calls_agent (hs : b.Sound k) (h : Move settings b e b' calls) {call : PersistCall}
    (hcall : call ∈ calls) : call.result.agent_id.1 = k := by
  cases h with
  | @delivered i _ _ s result pc slot state =>
    rw [List.mem_singleton.1 hcall]
    exact congrArg Prod.fst ((hs i s slot).result result (by rw [state]; rfl)).1
  | @settled _ _ i _ _ s result pc slot state =>
    rw [List.mem_singleton.1 hcall]
    exact congrArg Prod.fst ((hs i s slot).result result (by rw [state]; rfl)).1
  | _ => cases hcall

end

end Batch

/-! ### What is so in every crew -/

namespace Crew

/-- Every batch is coherent and sound. -/
def Wf (c : Crew) : Prop := ∀ (k : ℕ) (b : Batch), c.batches[k]? = some b → b.Coherent ∧ b.Sound k

section

variable {digest : Text → Text} {settings : Settings} {c c' : Crew} {e : CrewEvent}

/-- **What one step of the batches is**: a batch begins, or one makes a step. -/
theorem batches_of_step (h : step digest settings c e = some c') :
    (∃ main agents, e = .dispatch main agents ∧
        c'.batches = c.batches ++ [.ofSpecs c.batches.length main agents] ∧ c'.store = c.store) ∨
      ∃ k e' b b' written, e = .batch k e' ∧ c.batches[k]? = some b ∧
        b.step settings e' = some (b', written) ∧ c'.batches = c.batches.set k b' ∧
          c'.store = written.foldl (·._persist_agent_result digest ·) c.store := by
  cases e with
  | dispatch main agents =>
    obtain rfl := Option.some.inj h
    exact Or.inl ⟨main, agents, rfl, rfl, rfl⟩
  | batch k e =>
    obtain ⟨b, hb, h⟩ := Option.bind_eq_some_iff.1 h
    obtain ⟨⟨b', written⟩, hstep, rfl⟩ := Option.map_eq_some_iff.1 h
    exact Or.inr ⟨k, e, b, b', written, rfl, hb, hstep, rfl, rfl⟩

theorem batch_of_set {k j : ℕ} {b b' b'' : Batch} (hb : c.batches[k]? = some b)
    (h : (c.batches.set k b')[j]? = some b'') : j = k ∧ b'' = b' ∨ j ≠ k ∧ c.batches[j]? = some b'' := by
  have hlt : k < c.batches.length := (List.getElem?_eq_some_iff.1 hb).1
  rw [List.getElem?_set, if_pos hlt] at h
  split at h
  next hkj => exact Or.inl ⟨hkj.symm, (Option.some.inj h).symm⟩
  next hkj => exact Or.inr ⟨fun hjk ↦ hkj hjk.symm, h⟩

theorem batch_of_append {j : ℕ} {b b'' : Batch} (h : (c.batches ++ [b])[j]? = some b'') :
    c.batches[j]? = some b'' ∨ j = c.batches.length ∧ b'' = b := by
  rcases Nat.lt_or_ge j c.batches.length with hlt | hge
  · rw [List.getElem?_append_left hlt] at h
    exact Or.inl h
  · rw [List.getElem?_append_right hge] at h
    have hj : j - c.batches.length = 0 := by
      have hbound := (List.getElem?_eq_some_iff.1 h).1
      simp only [List.length_singleton] at hbound
      omega
    rw [hj] at h
    exact Or.inr ⟨by omega, (Option.some.inj h).symm⟩

theorem Wf.step (hc : c.Wf) (h : Crew.step digest settings c e = some c') : c'.Wf := by
  intro j b'' hb''
  rcases batches_of_step h with ⟨main, agents, -, hbatches, -⟩ |
    ⟨k, e', b, b', written, -, hb, hstep, hbatches, -⟩
  · rw [hbatches] at hb''
    rcases batch_of_append hb'' with hb'' | ⟨rfl, rfl⟩
    · exact hc j b'' hb''
    · exact ⟨.ofSpecs .., Batch.Sound.ofSpecs _ _ _⟩
  · rw [hbatches] at hb''
    rcases batch_of_set hb hb'' with ⟨rfl, rfl⟩ | ⟨-, hb''⟩
    · have hmove := Batch.move_of_step hstep
      exact ⟨(hc _ b hb).1.move hmove, (hc _ b hb).2.move hmove⟩
    · exact hc j b'' hb''

end

end Crew

/-! ### Samples -/

/-- An agent for a step of its own. -/
def sampleSpec (id : ℕ) : AgentSpec where
  role := "cors-specialist"
  step := {
    id, endpoint_id := 0, check_class := "cors", check_name := "cors.origin", rationale := "",
    priority := 1, intensity := "passive", status := .approved }

/-- The agent of this place in the first batch begins to run, and its brain decides to probe. -/
def beginsToProbe (i : ℕ) : List CrewEvent := [
  .batch 0 (.start i false),
  .batch 0 (.run i (.consult { action := "probe".toList, reasoning := [] }))]

/-- It finds something, with evidence. -/
def findsSomething (i : ℕ) : CrewEvent :=
  .batch 0 (.run i (.act
    [({ check_class := "cors", severity := .LOW, confidence := .HIGH, dedup_seed := ['a'] }, true)]))

end Sentrik
