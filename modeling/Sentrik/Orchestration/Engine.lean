import Sentrik.Library.Machine
import Sentrik.Orchestration.Steps

/-!
# The orchestrator

One assessment and everything that works on it: its rows, the task of its run, the executions of
steps approved later, and the agent tasks these spawn. Both drivers are modelled, the inline engine
and the graph; `use_langgraph` chooses.

## Interleaving

A step of the machine is one stretch of code between two awaits that matter: a transaction, a consult,
the start or the end of an agent task, a request going out. Steps of the run, of the executions, of
the agent tasks and of the API interleave freely. The label carries what the environment decides: the
answers of the brain, what discovery found, the clock, whether the deadline or the health check asks
to stop, whether a check applies.

## Orphans

The loop that consumes agent results is left as soon as a stop is noticed. The tasks that are still
going on are not awaited and not cancelled: they stay in `tasks`, and go on by their own steps.

## What is recorded

`approvals` and `denials` are the operators' decisions, `invocations` the calls of `check.run`,
`answered` those during which a response arrived, and `sent` counts the requests to the target.
-/

namespace Sentrik

/-! ### Rows and tasks -/

structure Assessment where
  org_id : ℕ
  state : AssessmentState := .CREATED
  requested_check_classes : List String := []
  incremental : Bool := false
  /-- The surface signatures of the previous assessment, if there is one. -/
  prev_signatures : Option (List Text) := none
  /-- Whether `started_at` is set. -/
  started : Bool := false
  cancel_requested : Bool := false
  error : String := ""
  skill_snapshot : List Manifest := []
  deriving DecidableEq, Repr

/-- The phases of a run, in order; the nodes of the graph. -/
inductive Node
  | authorize | discover | plan | policy | execute | validate | score | report
  deriving DecidableEq, Repr

/-- Where the inline driver reads the cancel flag: after a phase, which is before the next one. The
graph reads it before every node. -/
def Node.checksCancel (settings : Settings) (n : Node) : Bool :=
  settings.use_langgraph || [discover, plan, policy, execute, validate].contains n

/-- Where the task of the run is. -/
inductive MainPc
  | entering (n : Node)
  /-- The state of the phase is written and its work goes on. -/
  | inside (n : Node)
  /-- The bounded wait for approvals of held steps. -/
  | awaiting (approved pending : List ℕ)
  /-- Execution establishes the sessions of the test accounts. -/
  | loggingIn (steps : List PlanStep)
  /-- The main pass consumes the results of its agents. -/
  | streaming (pool : ℕ) (errored : List ℕ)
  /-- The bounded retries: the next attempt, the agent that runs, those left in this pass, and those
  that failed in it. -/
  | retrying (attempt : ℕ) (running : Option ℕ) (queue errored : List ℕ)
  | replanning (iteration : ℕ)
  | replanStreaming (iteration : ℕ) (pool : ℕ)
  /-- The cancel flag was seen; `CANCELLED` is written next. -/
  | cancelling
  /-- The last state is written; the context of the client is left next. -/
  | leaving
  deriving DecidableEq, Repr

/-- The iteration of replanning that comes next. -/
def MainPc.iteration : MainPc → Option ℕ
  | .replanning iteration => some iteration
  | _ => none

/-- The task of a run. -/
structure Main where
  pc : MainPc
  /-- The connection that is open. -/
  client : Option ℕ := none
  /-- What discovery returned, for the inline driver. -/
  saved : List Endpoint := []
  /-- The ids of the steps planning created, for the inline driver. -/
  plan : List ℕ := []
  /-- The steps policy returned, for the inline driver. -/
  allowed : List PlanStep := []
  /-- The declarative checks execution works with. -/
  declaratives : List DeclarativeCheck := []
  deriving DecidableEq, Repr

inductive ExecutionPc
  | queued
  | loggingIn (steps : List PlanStep)
  | streaming (pool : ℕ)
  | validating
  | scoring
  | finished
  deriving DecidableEq, Repr

/-- An execution of approved steps after the run. -/
structure Execution where
  step_ids : List ℕ
  pc : ExecutionPc := .queued
  client : ℕ := 0
  deriving DecidableEq, Repr

inductive TaskState
  | pending
  /-- How often the agent acted, and whether its check is running. -/
  | running (passes : ℕ) (probing : Bool)
  | finished (error : Bool)
  deriving DecidableEq, Repr

/-- An agent in its pool: one check for one step on one endpoint. -/
structure AgentTask where
  step : PlanStep
  endpoint : EndpointView
  check : Check
  client : ℕ
  pool : ℕ
  state : TaskState := .pending
  /-- How many requests of its check are in flight. -/
  inFlight : ℕ := 0
  /-- Whether the loop has consumed its result. -/
  delivered : Bool := false
  deriving DecidableEq, Repr

/-- The guarded client of a network phase, and the execution controller over it. -/
structure Connection where
  closed : Bool := false
  cancelled : Bool := false
  deriving DecidableEq, Repr

/-- A call of `check.run`. -/
structure Invocation where
  step : PlanStep
  endpoint : EndpointView
  check : Check
  deriving DecidableEq, Repr

/-- A row of the coverage report. -/
structure Coverage where
  endpoint_id : ℕ
  check_class : String
  tested : Bool
  reason_untested : String
  deriving DecidableEq, Repr

structure Orchestrator where
  assessment : Assessment
  endpoints : List Endpoint := []
  steps : List PlanStep := []
  skills : List AgentSkill := []
  nextId : ℕ := 0
  /-- The node the checkpointer has pending. -/
  thread : Option Node := none
  /-- Whether that node is interrupted: when it runs again, `interrupt` returns the payload. -/
  interrupted : Bool := false
  main : Option Main := none
  executions : List Execution := []
  tasks : List AgentTask := []
  connections : List Connection := []
  /-- How many pools there have been. -/
  pools : ℕ := 0
  coverage : List Coverage := []
  approvals : List ℕ := []
  denials : List ℕ := []
  invocations : List Invocation := []
  answered : List Invocation := []
  sent : ℕ := 0
  deriving DecidableEq, Repr

namespace Orchestrator

/-! ### Helpers -/

def setMain (o : Orchestrator) (m : Main) : Orchestrator := { o with main := some m }

/-- The task of the run is over. -/
def idle (o : Orchestrator) : Orchestrator := { o with main := none }

/-- The graph has reached its end. -/
def endThread (o : Orchestrator) : Orchestrator := { o with thread := none, interrupted := false }

def finish (o : Orchestrator) : Orchestrator := o.idle.endThread

def setTask (o : Orchestrator) (i : ℕ) (t : AgentTask) : Orchestrator :=
  { o with tasks := o.tasks.set i t }

def setState (o : Orchestrator) (state : AssessmentState) : Orchestrator :=
  { o with assessment := { o.assessment with state } }

def mark_failed (o : Orchestrator) (error : String) : Orchestrator :=
  { o with assessment := { o.assessment with state := .FAILED, error } }

/-- Whether a connection can still send. -/
def isOpen (o : Orchestrator) (k : ℕ) : Bool := o.connections[k]?.any (!·.closed)

/-- Whether the controller over a connection was told to stop. -/
def isCancelled (o : Orchestrator) (k : ℕ) : Bool := o.connections[k]?.any (·.cancelled)

/-- Open a client. -/
def connect (o : Orchestrator) : Orchestrator :=
  { o with connections := o.connections ++ [⟨false, false⟩] }

/-- Leave the context of a client. -/
def close (o : Orchestrator) (k : ℕ) : Orchestrator :=
  { o with connections := o.connections.modify k fun c ↦ { c with closed := true } }

/-- Set the flag of a controller. -/
def stop (o : Orchestrator) (k : ℕ) : Orchestrator :=
  { o with connections := o.connections.modify k fun c ↦ { c with cancelled := true } }

/-- Close what the task of the run has open. -/
def closeMain (o : Orchestrator) (m : Main) : Orchestrator := m.client.elim o o.close

/-- Write the status of a step. -/
def setStatus (o : Orchestrator) (id : ℕ) (status : StepStatus) : Orchestrator :=
  { o with steps := o.steps.map fun s ↦ if s.id = id then { s with status } else s }

/-- The status the result of an agent gives its step. -/
def resultStatus (error : Bool) : StepStatus := if error then .errored else .done

/-- Write the result of an agent. -/
def _persist_agent_result (o : Orchestrator) (t : AgentTask) (error : Bool) : Orchestrator :=
  o.setStatus t.step.id (resultStatus error)

/-- The stored rows with the given ids. -/
def _reload_steps (o : Orchestrator) (ids : List ℕ) : List PlanStep :=
  o.steps.filter (ids.contains ·.id)

def held_step_ids (o : Orchestrator) : List ℕ :=
  (o.steps.filter (·.status == .awaiting_approval)).map (·.id)

/-- Store the endpoints whose fingerprint is new. -/
def addEndpoints (o : Orchestrator) (found : List Endpoint) : Orchestrator × List Endpoint :=
  found.foldl (fun (o, saved) e ↦
    if o.endpoints.any (·.fingerprint == e.fingerprint) then (o, saved)
    else
      let e := { e with id := o.nextId }
      ({ o with endpoints := o.endpoints ++ [e], nextId := o.nextId + 1 }, saved ++ [e])) (o, [])

/-- Store new steps, with ids from the counter. -/
def addSteps (o : Orchestrator) (rows : List PlanStep) : Orchestrator :=
  { o with steps := o.steps ++ rows, nextId := o.nextId + rows.length }

/-- Number rows from the counter on. -/
def numbered (o : Orchestrator) (rows : List PlanStep) : List PlanStep :=
  rows.mapIdx fun i s ↦ { s with id := o.nextId + i }

section

variable (registry : _Registry) (record : AuthorizationRecord) (settings : Settings)

/-- The guard of a phase; its counter plays no part here. -/
def _make_guard : ScopeGuard where
  record
  _settings := settings

/-- Go to the entrance of a phase. The graph stores its position first. -/
def goto (o : Orchestrator) (m : Main) (n : Node) : Orchestrator :=
  { o with
    main := some { m with pc := .entering n }
    thread := if settings.use_langgraph then some n else none }

/-- Launch the run, unless it is running. The graph continues a pending thread. -/
def start_assessment (o : Orchestrator) : Orchestrator :=
  if o.main.isSome then o
  else
    goto settings o { pc := .leaving }
      (if settings.use_langgraph then o.thread.getD .authorize else .authorize)

/-- Launch the execution of approved steps, unless the same one is going on. -/
def start_approved_steps (o : Orchestrator) (step_ids : List ℕ) : Orchestrator :=
  if o.executions.any fun x ↦ x.step_ids == step_ids && x.pc != .finished then o
  else { o with executions := o.executions ++ [{ step_ids }] }

/-- A parked run continues once nothing is held. -/
def _resume_if_parked (o : Orchestrator) : Orchestrator :=
  if o.main.isSome ∨ o.assessment.state ≠ .POLICY_CHECK then o
  else if o.held_step_ids = [] then o.start_assessment settings
  else o

variable [u : UnicodeTables]

/-- The declarative checks of this run: frozen at the first call that finds any. -/
def _declaratives (o : Orchestrator) : List DeclarativeCheck :=
  if o.assessment.skill_snapshot ≠ [] then checks_from_snapshot o.assessment.skill_snapshot
  else load_declarative_checks o.skills o.assessment.org_id

/-- The effect of that call on the snapshot. -/
def freeze (o : Orchestrator) : Orchestrator :=
  if o.assessment.skill_snapshot ≠ [] then o
  else
    { o with assessment :=
        { o.assessment with skill_snapshot := snapshot_specs o._declaratives } }

/-! ### The phases of a run -/

/-- Enter a phase: read the cancel flag where the driver does, write the state, and open the client of
a network phase. -/
def enter (o : Orchestrator) (m : Main) (n : Node) (now : ℤ) : Orchestrator :=
  let precheck := (_make_guard record settings).check_record_active now
  let k := o.connections.length
  let opened := o.connect
  if n.checksCancel settings ∧ o.assessment.cancel_requested then
    o.setMain { m with pc := .cancelling }
  else
    match n with
    | .authorize =>
      let o := { o with assessment := { o.assessment with state := .AUTHORIZED, started := true } }
      if settings.use_langgraph ∧ ¬precheck.allowed then
        -- the node answers with the reason, and the graph ends
        o.finish
      else goto settings o m .discover
    | .discover =>
      if ¬settings.use_langgraph ∧ ¬precheck.allowed then
        (o.mark_failed ("authorization not usable: " ++ precheck.reason)).setMain
          { m with pc := .leaving }
      else
        (opened.setState .DISCOVERING).setMain { m with pc := .inside n, client := some k }
    | .plan => (o.setState .PLANNING).setMain { m with pc := .inside n }
    | .policy => (o.setState .POLICY_CHECK).setMain { m with pc := .inside n }
    | .execute =>
      if settings.use_langgraph then
        (opened.setState .EXECUTING).setMain { m with pc := .inside n, client := some k }
      else (o.setState .EXECUTING).setMain { m with pc := .inside n }
    | .validate =>
      if settings.use_langgraph then
        (opened.setState .VALIDATING).setMain { m with pc := .inside n, client := some k }
      else (o.setState .VALIDATING).setMain { m with pc := .inside n }
    | .score => (o.setState .SCORING).setMain { m with pc := .inside n }
    | .report => (o.setState .REPORTING).setMain { m with pc := .inside n }

/-- A network phase ends: the graph leaves the client of the node. -/
def endPhase (o : Orchestrator) (m : Main) (next : Node) : Orchestrator :=
  if settings.use_langgraph then
    goto settings (o.closeMain m) { m with client := none } next
  else goto settings o m next

/-- Discovery stores what it found in scope, as far as it is new. -/
def _phase_discovery (o : Orchestrator) (m : Main) (found : List Endpoint) : Orchestrator :=
  let (o, saved) := o.addEndpoints found
  endPhase settings o { m with saved } .plan

/-- The classes planning works with. -/
def effective (a : Assessment) : List String :=
  if a.requested_check_classes ≠ [] then
    a.requested_check_classes.filter (record.allowed_check_classes.contains ·)
  else record.allowed_check_classes

/-- The endpoints to plan for: an incremental run leaves out those whose surface is unchanged. -/
def planEndpoints (a : Assessment) (endpoints : List Endpoint) : List Endpoint :=
  match a.prev_signatures with
  | some prev => if a.incremental then endpoints.filter (!prev.contains ·.signature) else endpoints
  | none => endpoints

/-- The endpoints a driver passes to planning. -/
def offered (o : Orchestrator) (m : Main) : List Endpoint :=
  planEndpoints o.assessment (if settings.use_langgraph then o.endpoints else m.saved)

/-- The step rows of a plan, before they have ids. -/
def plannedRow (p : PlannedStep) : PlanStep where
  id := 0
  endpoint_id := p.endpoint_id
  check_class := p.check_class
  check_name := p.check_name
  rationale := p.rationale
  priority := p.priority
  intensity := p.intensity
  status := .planned

/-- The plan the planner arrives at. -/
def planOf (o : Orchestrator) (m : Main) (multi : Bool) (strategy : String)
    (order : Option (List String)) : List PlannedStep :=
  rerank_plan
    (_apply_strategy
      (build_plan registry ((offered settings o m).map _endpoint_view) (effective record o.assessment)
        (_coerce_intensity record.intensity) multi o._declaratives) strategy) order

def _phase_planning (o : Orchestrator) (m : Main) (multi : Bool) (strategy : String)
    (order : Option (List String)) : Orchestrator :=
  let rows := o.numbered ((planOf registry record settings o m multi strategy order).map plannedRow)
  goto settings (o.freeze.addSteps rows) { m with plan := rows.map (·.id) } .policy

/-- The steps policy judges: those of this plan, or every planned one. -/
def underReview (o : Orchestrator) (m : Main) : List ℕ :=
  if settings.use_langgraph then (o.steps.filter (·.status == .planned)).map (·.id) else m.plan

/-- Write the verdicts on the given steps. -/
def judgeAll (o : Orchestrator) (ids : List ℕ) : Orchestrator :=
  { o with steps := o.steps.map fun s ↦
      if s.id ∈ ids then
        judge registry (_make_guard record settings) settings o._declaratives s
      else s }

/-- The deterministic policy gate. The inline driver waits for held steps; the graph parks, unless this
is the run that answers the interrupt. -/
def _phase_policy (o : Orchestrator) (m : Main) : Orchestrator :=
  let ids := underReview settings o m
  let o := (judgeAll registry record settings o ids).freeze
  let judged := o._reload_steps ids
  let allowed := (judged.filter (·.status == .approved)).map (·.id)
  let held := (judged.filter (·.status == .awaiting_approval)).map (·.id)
  if settings.use_langgraph then
    if o.held_step_ids = [] ∨ o.interrupted then
      { goto settings o m .execute with interrupted := false }
    else { o.setMain { m with pc := .leaving } with interrupted := true }
  else if held = [] then goto settings o { m with allowed := o._reload_steps allowed } .execute
  else o.setMain { m with pc := .awaiting allowed held }

/-- One round of the bounded wait: collect the decisions, and go on when nothing is pending or the wait
is over. -/
def _await_step_approvals (o : Orchestrator) (m : Main) (approved pending : List ℕ)
    (expired : Bool) : Orchestrator :=
  let rows := o._reload_steps pending
  let approved := approved ++ (rows.filter (·.status == .approved)).map (·.id)
  let pending := pending.filter fun id ↦
    !rows.any fun r ↦ r.id == id && [.approved, .denied, .skipped].contains r.status
  if pending = [] ∨ expired ∨ o.assessment.cancel_requested then
    goto settings o { m with allowed := o._reload_steps approved } .execute
  else o.setMain { m with pc := .awaiting approved pending }

/-- The steps execution is given. -/
def toExecute (o : Orchestrator) (m : Main) : List PlanStep :=
  if settings.use_langgraph then o.steps.filter (·.status == .approved) else m.allowed

/-- Execution begins: without steps, or when the coordinator elects to stop, it is over. -/
def coordinate (o : Orchestrator) (m : Main) (elects_stop : Bool) : Orchestrator :=
  let steps := toExecute settings o m
  if steps = [] ∨ elects_stop then endPhase settings o m .validate
  else o.setMain { m with pc := .loggingIn steps }

/-- One agent per step that resolves to a check; a step whose endpoint is gone raises. -/
def agentsFor (o : Orchestrator) (declaratives : List DeclarativeCheck) (client : ℕ) :
    List PlanStep → Option (List AgentTask)
  | [] => some []
  | s :: rest =>
    match o.endpoints.find? (·.id == s.endpoint_id), agentsFor o declaratives client rest with
    | some e, some tasks =>
      match _resolve_check registry s.check_name s.check_class declaratives with
      | none => some tasks
      | some check =>
        some ({ step := s, endpoint := _endpoint_view e, check, client, pool := o.pools } :: tasks)
    | _, _ => none

/-- Put agents into a new pool. -/
def spawn (o : Orchestrator) (tasks : List AgentTask) : Orchestrator :=
  { o with tasks := o.tasks ++ tasks, pools := o.pools + 1 }

/-- The main pass starts. -/
def dispatch (o : Orchestrator) (m : Main) (steps : List PlanStep) : Option Orchestrator :=
  (agentsFor registry o o._declaratives (m.client.getD 0) steps).map fun tasks ↦
    (o.freeze.spawn tasks).setMain
      { m with pc := .streaming o.pools [], declaratives := o._declaratives }

/-- The result of a task that the loop over its pool has not consumed. -/
def resultOf (o : Orchestrator) (pool i : ℕ) : Option (AgentTask × Bool) :=
  match o.tasks[i]? with
  | some t =>
    match t.state with
    | .finished error => if t.pool = pool ∧ t.delivered = false then some (t, error) else none
    | _ => none
  | none => none

/-- Whether every result of a pool has been consumed. -/
def drained (o : Orchestrator) (pool : ℕ) : Bool :=
  o.tasks.all fun t ↦ t.pool != pool || t.delivered

/-- Consume a result. -/
def consume (o : Orchestrator) (i : ℕ) (t : AgentTask) (error : Bool) : Orchestrator :=
  (o._persist_agent_result t error).setTask i { t with delivered := true }

/-- The main pass consumes a result, unless it notices that it has to stop. -/
def deliver (o : Orchestrator) (m : Main) (pool : ℕ) (errored : List ℕ) (i : ℕ) (noticed : Bool) :
    Option Orchestrator :=
  (o.resultOf pool i).map fun (t, error) ↦
    if o.assessment.cancel_requested ∨ noticed then
      endPhase settings (m.client.elim o o.stop) m .validate
    else
      (o.consume i t error).setMain
        { m with pc := .streaming pool (if error then errored ++ [i] else errored) }

/-- The retries: the next agent of the pass, or the next pass over those that failed. -/
def retry (o : Orchestrator) (m : Main) (attempt : ℕ) (queue errored : List ℕ) (noticed : Bool) :
    Option Orchestrator :=
  match queue with
  | i :: rest =>
    (o.tasks[i]?).map fun t ↦
      (o.setTask i { t with state := .running 0 false }).setMain
        { m with pc := .retrying attempt (some i) rest errored }
  | [] =>
    if errored = [] ∨ noticed ∨ o.assessment.cancel_requested ∨
        settings.max_step_retries + 2 ≤ attempt then
      some (o.setMain { m with pc := .replanning 0 })
    else some (o.setMain { m with pc := .retrying (attempt + 1) none errored [] })

/-- The result of a retried agent. -/
def retried (o : Orchestrator) (m : Main) (attempt i : ℕ) (queue errored : List ℕ) :
    Option Orchestrator :=
  match o.tasks[i]? with
  | some t =>
    match t.state with
    | .finished error =>
      some <| (o._persist_agent_result t error).setMain
        { m with pc := .retrying attempt none queue (if error then errored ++ [i] else errored) }
    | _ => none
  | none => none

/-- The authorized pairs of an endpoint and a class that are not done, with the check picked for the
class. `classes` is the set of authorized classes in the order it is iterated in. -/
def gaps (o : Orchestrator) (declaratives : List DeclarativeCheck) (classes : List String) :
    List (ℕ × String × Check) :=
  o.endpoints.flatMap fun e ↦ classes.filterMap fun cclass ↦
    if o.steps.any fun s ↦ s.status == .done && s.endpoint_id == e.id && s.check_class == cclass then
      none
    else
      (_resolve_check registry "" cclass declaratives).bind fun check ↦
        if ((_make_guard record settings).check_class_allowed cclass check.intensity).allowed then
          some (e.id, cclass, check)
        else none

/-- The step row of a gap, before it has an id. -/
def gapRow (declaratives : List DeclarativeCheck) (gap : ℕ × String × Check) : PlanStep where
  id := 0
  endpoint_id := gap.1
  check_class := gap.2.1
  check_name := gap.2.2.name
  rationale := "replan: coverage gap"
  priority := 1
  intensity :=
    ((_resolve_check registry gap.2.2.name gap.2.1 declaratives).map (·.intensity.value)).getD
      "passive"
  status := .approved

/-- The rows replanning inserts. -/
def gapRows (o : Orchestrator) (m : Main) (classes : List String) : List PlanStep :=
  o.numbered (((gaps registry record settings o m.declaratives classes).take
    settings.replan_batch).map (gapRow registry m.declaratives))

/-- What the environment contributes to one iteration of replanning. -/
structure ReplanAnswer where
  /-- The deadline has passed, or the target is unhealthy. -/
  noticed : Bool := false
  /-- The counter of the guard. -/
  requests_made : ℕ := 0
  /-- The order in which the set of authorized classes is iterated. -/
  classes : List String
  /-- The coordinator elects to stop. -/
  elects_stop : Bool := false

/-- What keeps an iteration of replanning from scheduling gaps: the bound on iterations, a stop, a
spent budget, or the coordinator. -/
def stopsReplanning (o : Orchestrator) (iteration : ℕ) (answer : ReplanAnswer) : Prop :=
  settings.max_replans ≤ iteration ∨ answer.noticed = true ∨ o.assessment.cancel_requested = true ∨
    (record.max_requests ≠ 0 ∧ record.max_requests ≤ answer.requests_made) ∨
    (answer.elects_stop = true ∧ settings.auto_replan_on_coverage_gap = false)

instance (o : Orchestrator) (iteration : ℕ) (answer : ReplanAnswer) :
    Decidable (o.stopsReplanning record settings iteration answer) :=
  inferInstanceAs (Decidable (_ ∨ _))

/-- One iteration of replanning: the gaps of this moment, up to the batch size, become approved steps
and run at once. -/
def _maybe_replan (o : Orchestrator) (m : Main) (iteration : ℕ) (answer : ReplanAnswer) :
    Option Orchestrator :=
  if ¬answer.classes.isPerm record.allowed_check_classes.dedup then none
  else if o.stopsReplanning record settings iteration answer ∨
      gaps registry record settings o m.declaratives answer.classes = [] then
    some (endPhase settings o m .validate)
  else
    let rows := gapRows registry record settings o m answer.classes
    (agentsFor registry o m.declaratives (m.client.getD 0) rows).map fun tasks ↦
      ((o.addSteps rows).spawn tasks).setMain { m with pc := .replanStreaming iteration o.pools }

/-- Replanning consumes a result, unless it has to stop. -/
def replanDeliver (o : Orchestrator) (m : Main) (iteration pool i : ℕ) (noticed : Bool) :
    Option Orchestrator :=
  (o.resultOf pool i).map fun (t, error) ↦
    if noticed ∨ o.assessment.cancel_requested then
      o.setMain { m with pc := .replanning (iteration + 1) }
    else o.consume i t error

/-- An exception inside a phase. The graph leaves the client of the node first, and ends. -/
def raise (o : Orchestrator) (m : Main) (error : String) : Orchestrator :=
  if settings.use_langgraph then
    ((o.closeMain m).mark_failed error).finish
  else (o.mark_failed error).setMain { m with pc := .leaving }

/-- Why a pair is untested. -/
def _untested_reason (endpoint_id : ℕ) (cclass : String) (approved_pairs : List (ℕ × String)) :
    String :=
  if (endpoint_id, cclass) ∈ approved_pairs then "planned but not completed"
  else "not planned (heuristics/scope) — UNKNOWN risk, not confirmed-safe"

/-- The pairs of the steps with the given statuses. -/
def pairs (o : Orchestrator) (statuses : List StepStatus) : List (ℕ × String) :=
  (o.steps.filter (statuses.contains ·.status)).map fun s ↦ (s.endpoint_id, s.check_class)

/-- The coverage part of scoring: one row for each endpoint and authorized class, when there are no rows
yet. -/
def _phase_score (o : Orchestrator) : Orchestrator :=
  let authorized :=
    if record.allowed_check_classes ≠ [] then record.allowed_check_classes.dedup
    else registry.classes
  if o.coverage ≠ [] then o
  else
    { o with coverage := o.endpoints.flatMap fun e ↦ authorized.map fun cclass ↦
        let tested := (o.pairs [.done]).contains (e.id, cclass)
        { endpoint_id := e.id
          check_class := cclass
          tested
          reason_untested :=
            if tested then "" else _untested_reason e.id cclass (o.pairs [.done, .approved, .errored]) } }

/-! ### Executions of approved steps -/

def setExecution (o : Orchestrator) (j : ℕ) (x : Execution) : Orchestrator :=
  { o with executions := o.executions.set j x }

/-- Skip steps that were approved and can no longer be executed. -/
def blockSteps (o : Orchestrator) (ids : List ℕ) (reason : String) : Orchestrator :=
  { o with steps := o.steps.map fun s ↦
      if s.id ∈ ids then
        { s with
          status := .skipped
          policy_decision := { s.policy_decision with post_approval_block := some reason } }
      else s }

/-- An execution begins: it keeps the steps that are approved, and skips them if the record is not
active any more. -/
def execute_approved_steps (o : Orchestrator) (j : ℕ) (x : Execution) (now : ℤ) : Orchestrator :=
  let steps := (o._reload_steps x.step_ids).filter (·.status == .approved)
  let precheck := (_make_guard record settings).check_record_active now
  if steps = [] then o.setExecution j { x with pc := .finished }
  else if ¬precheck.allowed then
    (o.blockSteps (steps.map (·.id)) precheck.reason).setExecution j { x with pc := .finished }
  else
    o.connect.setExecution j { x with pc := .loggingIn steps, client := o.connections.length }

def executionDispatch (o : Orchestrator) (j : ℕ) (x : Execution) (steps : List PlanStep) :
    Option Orchestrator :=
  (agentsFor registry o o._declaratives x.client steps).map fun tasks ↦
    (o.freeze.spawn tasks).setExecution j { x with pc := .streaming o.pools }

def executionDeliver (o : Orchestrator) (j : ℕ) (x : Execution) (pool i : ℕ) (noticed : Bool) :
    Option Orchestrator :=
  (o.resultOf pool i).map fun (t, error) ↦
    if noticed ∨ o.assessment.cancel_requested then o.setExecution j { x with pc := .validating }
    else o.consume i t error

/-! ### API handlers -/

def held (o : Orchestrator) (step_id : ℕ) : Bool :=
  (o.steps.find? (·.id == step_id)).any (·.status == .awaiting_approval)

/-- Write the decision of an operator. -/
def decideStep (o : Orchestrator) (step_id : ℕ) (status : StepStatus)
    (note : PolicyDecision → PolicyDecision) : Orchestrator :=
  { o with steps := o.steps.map fun s ↦
      if s.id = step_id then { s with status, policy_decision := note s.policy_decision } else s }

def approve_step (o : Orchestrator) (step_id user_id : ℕ) (note : String) : Orchestrator :=
  if o.held step_id then
    let o := o.decideStep step_id .approved fun d ↦
      { d with approved_by := some user_id, approval_note := some note }
    let o := { o with approvals := o.approvals ++ [step_id] }
    if o.assessment.state ∈ TERMINAL_STATES then o.start_approved_steps [step_id]
    else o._resume_if_parked settings
  else o

def deny_step (o : Orchestrator) (step_id user_id : ℕ) (note : String) : Orchestrator :=
  if o.held step_id then
    let o := o.decideStep step_id .denied fun d ↦
      { d with denied_by := some user_id, denial_note := some note }
    let o := { o with denials := o.denials ++ [step_id] }
    o._resume_if_parked settings
  else o

/-- Start a run. Only the REST endpoint resets the flag. -/
def start (o : Orchestrator) (reset : Bool) : Orchestrator :=
  if o.assessment.state = .CREATED ∨ o.assessment.state = .FAILED then
    let o := if reset then
        { o with assessment := { o.assessment with cancel_requested := false, error := "" } }
      else o
    o.start_assessment settings
  else o

def cancel (o : Orchestrator) : Orchestrator :=
  if o.assessment.state ∈ TERMINAL_STATES then o
  else
    let o := { o with assessment := { o.assessment with cancel_requested := true } }
    if o.main.isSome then o else o.setState .CANCELLED

def cancel_all (o : Orchestrator) : Orchestrator :=
  if o.assessment.state ∈ TERMINAL_STATES then o
  else { o with assessment := { o.assessment with cancel_requested := true } }

/-- The process dies: no task is left. -/
def crash (o : Orchestrator) : Orchestrator :=
  { o with
    main := none
    executions := []
    tasks := o.tasks.map fun t ↦ { t with state := .finished true, delivered := true }
    connections := o.connections.map fun c ↦ { c with closed := true } }

/-- The startup sweep: continue a pending thread of the graph, else restart from nothing. -/
def resume_incomplete_assessments (o : Orchestrator) : Orchestrator :=
  if o.assessment.state ∈ TERMINAL_STATES ∨ o.assessment.started = false ∨ o.main.isSome then o
  else if settings.use_langgraph ∧ o.thread.isSome then o.start_assessment settings
  else
    let o := { o with
      steps := []
      endpoints := []
      coverage := []
      assessment := { o.assessment with state := .CREATED, cancel_requested := false } }
    o.start_assessment settings

end

end Orchestrator

/-! ### The machine -/

/-- What the task of the run does next. -/
inductive MainEvent
  | enter (now : ℤ)
  | discovered (found : List Endpoint)
  | plan (multi : Bool) (strategy : String) (order : Option (List String))
  | policy
  | poll (expired : Bool)
  | coordinate (elects_stop : Bool)
  /-- A request of discovery, of a login or of validation. -/
  | send
  | dispatch
  | deliver (i : ℕ) (noticed : Bool)
  | drained
  | retry (noticed : Bool)
  | retried
  | replan (answer : Orchestrator.ReplanAnswer)
  | validated
  | scored
  | reported
  | raise (error : String)
  | cancelled
  | leave

inductive ExecutionEvent
  | begin (now : ℤ)
  | send
  | dispatch
  | deliver (i : ℕ) (noticed : Bool)
  | drained
  | validated
  | scored
  | raise

inductive TaskEvent
  /-- The task gets its slot; `noticed` is the deadline or the health check. -/
  | begin (noticed : Bool)
  /-- The agent acts; `invoke` says that nothing keeps it from running its check. -/
  | act (invoke : Bool)
  | send
  /-- A response to a request of the check arrives. -/
  | receive
  | finish (error : Bool)

inductive EngineEvent
  | main (e : MainEvent)
  | execution (j : ℕ) (e : ExecutionEvent)
  | task (i : ℕ) (e : TaskEvent)
  | start (reset : Bool)
  | cancel
  | cancel_all
  | approve (step_id user_id : ℕ) (note : String)
  | deny (step_id user_id : ℕ) (note : String)
  /-- A triage decision on a finding; findings are not part of this state. -/
  | triage
  /-- Traffic is ingested. -/
  | ingest (found : List Endpoint)
  /-- The skill registry changes. -/
  | register (skills : List AgentSkill)
  /-- The process dies and comes up again. -/
  | restart

namespace EngineEvent

/-- Whether this is a planning phase, and if so whether it counts at least two test accounts. -/
def planning : EngineEvent → Option Bool
  | main (.plan multi _ _) => some multi
  | _ => none

/-- What the environment answers to replanning, if this is an iteration of it. -/
def replans : EngineEvent → Option Orchestrator.ReplanAnswer
  | main (.replan answer) => some answer
  | _ => none

end EngineEvent

namespace Orchestrator

variable (registry : _Registry) (record : AuthorizationRecord) (settings : Settings)

/-- An assessment as it is created. -/
def created (org_id : ℕ) (requested : List String) (incremental : Bool)
    (prev : Option (List Text)) : Orchestrator where
  assessment :=
    { org_id, requested_check_classes := requested, incremental, prev_signatures := prev }

/-- Whether the task of the run is at a place where it sends requests itself. -/
def MainPc.sends : MainPc → Bool
  | .inside .discover | .inside .validate | .loggingIn _ => true
  | _ => false

def ExecutionPc.sends : ExecutionPc → Bool
  | .loggingIn _ | .validating => true
  | _ => false

variable [u : UnicodeTables]

def mainStep (o : Orchestrator) (m : Main) : MainEvent → Option Orchestrator
  | .enter now =>
    match m.pc with
    | .entering n => some (enter record settings o m n now)
    | _ => none
  | .discovered found =>
    if m.pc = .inside .discover then some (_phase_discovery settings o m found) else none
  | .plan multi strategy order =>
    if m.pc = .inside .plan then
      some (_phase_planning registry record settings o m multi strategy order)
    else none
  | .policy =>
    if m.pc = .inside .policy then some (_phase_policy registry record settings o m) else none
  | .poll expired =>
    match m.pc with
    | .awaiting approved pending => some (_await_step_approvals settings o m approved pending expired)
    | _ => none
  | .coordinate elects_stop =>
    if m.pc = .inside .execute then some (coordinate settings o m elects_stop) else none
  | .send => if MainPc.sends m.pc then some { o with sent := o.sent + 1 } else none
  | .dispatch =>
    match m.pc with
    | .loggingIn steps => dispatch registry o m steps
    | _ => none
  | .deliver i noticed =>
    match m.pc with
    | .streaming pool errored => deliver settings o m pool errored i noticed
    | .replanStreaming iteration pool => replanDeliver o m iteration pool i noticed
    | _ => none
  | .drained =>
    match m.pc with
    | .streaming pool errored =>
      if o.drained pool then some (o.setMain { m with pc := .retrying 2 none [] errored }) else none
    | .replanStreaming iteration pool =>
      if o.drained pool then some (o.setMain { m with pc := .replanning (iteration + 1) }) else none
    | _ => none
  | .retry noticed =>
    match m.pc with
    | .retrying attempt none queue errored => retry settings o m attempt queue errored noticed
    | _ => none
  | .retried =>
    match m.pc with
    | .retrying attempt (some i) queue errored => retried o m attempt i queue errored
    | _ => none
  | .replan answer =>
    match m.pc with
    | .replanning iteration => _maybe_replan registry record settings o m iteration answer
    | _ => none
  | .validated => if m.pc = .inside .validate then some (endPhase settings o m .score) else none
  | .scored =>
    if m.pc = .inside .score then some (goto settings (_phase_score registry record o) m .report)
    else none
  | .reported =>
    if m.pc = .inside .report then
      some ((o.setState .COMPLETED).setMain { m with pc := .leaving }).endThread
    else none
  | .raise error => if m.pc = .leaving then none else some (raise settings o m error)
  | .cancelled =>
    if m.pc = .cancelling then
      some ((o.setState .CANCELLED).setMain { m with pc := .leaving }).endThread
    else none
  | .leave => if m.pc = .leaving then some (o.closeMain m).idle else none

def executionStep (o : Orchestrator) (j : ℕ) (x : Execution) : ExecutionEvent → Option Orchestrator
  | .begin now =>
    if x.pc = .queued then some (execute_approved_steps record settings o j x now) else none
  | .send => if ExecutionPc.sends x.pc then some { o with sent := o.sent + 1 } else none
  | .dispatch =>
    match x.pc with
    | .loggingIn steps => executionDispatch registry o j x steps
    | _ => none
  | .deliver i noticed =>
    match x.pc with
    | .streaming pool => executionDeliver o j x pool i noticed
    | _ => none
  | .drained =>
    match x.pc with
    | .streaming pool =>
      if o.drained pool then some (o.setExecution j { x with pc := .validating }) else none
    | _ => none
  | .validated =>
    if x.pc = .validating then some ((o.close x.client).setExecution j { x with pc := .scoring })
    else none
  | .scored =>
    if x.pc = .scoring then
      some ((_phase_score registry record o).setExecution j { x with pc := .finished })
    else none
  | .raise =>
    if x.pc = .queued ∨ x.pc = .finished then none
    else some ((o.close x.client).setExecution j { x with pc := .finished })

/-- How many tasks of a pool are running. -/
def runningIn (o : Orchestrator) (pool : ℕ) : ℕ :=
  o.tasks.countP fun t ↦ t.pool == pool && (match t.state with | .running .. => true | _ => false)

def taskStep (o : Orchestrator) (i : ℕ) (t : AgentTask) : TaskEvent → Option Orchestrator
  | .begin noticed =>
    if t.state = .pending ∧ o.runningIn t.pool < max 1 settings.execution_concurrency then
      some (o.setTask i { t with
        state := if o.isCancelled t.client ∨ noticed then .finished true else .running 0 false })
    else none
  | .act invoke =>
    match t.state with
    | .running passes _ =>
      if passes < min 2 settings.max_recursion_depth ∧
          (passes = 0 ∨ t.endpoint.injectable_params ≠ []) then
        let o := o.setTask i { t with state := .running (passes + 1) invoke, inFlight := 0 }
        some (if invoke then
            { o with invocations := o.invocations ++ [⟨t.step, t.endpoint, t.check⟩] }
          else o)
      else none
    | _ => none
  | .send =>
    match t.state with
    | .running _ true =>
      if o.isOpen t.client then
        some { o.setTask i { t with inFlight := t.inFlight + 1 } with sent := o.sent + 1 }
      else none
    | _ => none
  | .receive =>
    match t.state with
    | .running _ true =>
      if t.inFlight = 0 then none
      else
        some { o.setTask i { t with inFlight := t.inFlight - 1 } with
          answered := o.answered ++ [⟨t.step, t.endpoint, t.check⟩] }
    | _ => none
  | .finish error =>
    match t.state with
    | .running .. => some (o.setTask i { t with state := .finished error })
    | _ => none

def step (o : Orchestrator) : EngineEvent → Option Orchestrator
  | .main e => o.main.bind fun m ↦ mainStep registry record settings o m e
  | .execution j e => o.executions[j]?.bind fun x ↦ executionStep registry record settings o j x e
  | .task i e => o.tasks[i]?.bind fun t ↦ taskStep settings o i t e
  | .start reset => some (start settings o reset)
  | .cancel => some o.cancel
  | .cancel_all => some o.cancel_all
  | .approve step_id user_id note => some (approve_step settings o step_id user_id note)
  | .deny step_id user_id note => some (deny_step settings o step_id user_id note)
  | .triage => some o
  | .ingest found => some (o.addEndpoints found).1
  | .register skills => some { o with skills }
  | .restart => some (resume_incomplete_assessments settings o.crash)

end Orchestrator

/-! ### Sample runs -/

/-- The registry as it ships. -/
def builtinRegistry : _Registry := .ofList [
  { name := "bola.cross_account", check_class := .BOLA, intensity := .SAFE_ACTIVE },
  { name := "business_logic.numeric_bounds", check_class := .BUSINESS_LOGIC,
    intensity := .SAFE_ACTIVE },
  { name := "business_flow.multi_step", check_class := .BUSINESS_FLOW, intensity := .SAFE_ACTIVE },
  { name := "headers.security", check_class := .SECURITY_HEADERS },
  { name := "llm.prompt_injection", check_class := .LLM_PROMPT_INJECTION,
    intensity := .SAFE_ACTIVE },
  { name := "redirect.open", check_class := .OPEN_REDIRECT, intensity := .SAFE_ACTIVE },
  { name := "sqli.reflected", check_class := .SQLI, intensity := .SAFE_ACTIVE },
  { name := "xss.reflected", check_class := .XSS, intensity := .SAFE_ACTIVE }]

/-- A verified record for the given classes. -/
def scanRecord (allowed_check_classes : List String) : AuthorizationRecord :=
  { org_id := 1, target_id := 1, status := "verified", intensity := "safe_active",
    allowed_check_classes }

/-- A record that permits state-changing tests. -/
def changingRecord : AuthorizationRecord :=
  { scanRecord ["cors", "security_headers"] with allow_state_changing := true }

def sampleEndpoint : Endpoint where
  id := 0
  method := "GET".toList
  url := "https://app.example/orders".toList
  path_template := "/orders".toList

/-- An inline run from its start to the verdicts of policy. -/
def throughPolicy (found : List Endpoint) : List EngineEvent := [
  .start true, .main (.enter 0), .main (.enter 0), .main (.discovered found), .main (.enter 0),
  .main (.plan false "balanced" none), .main (.enter 0), .main .policy]

/-- The main pass up to the point where its agents wait for their slots. -/
def throughDispatch : List EngineEvent :=
  [.main (.enter 0), .main (.coordinate false), .main .dispatch]

/-- An agent that runs its check and finishes. -/
def runAgent (i : ℕ) : List EngineEvent :=
  [.task i (.begin false), .task i (.act true), .task i .send, .task i (.finish false)]

/-- The end of a main pass whose only agent was number 0, and an iteration of replanning. -/
def throughReplan (classes : List String) : List EngineEvent :=
  [.main (.deliver 0 false), .main .drained, .main (.retry false), .main (.replan { classes })]

/-- From the end of execution to the end of the run. -/
def throughReport : List EngineEvent := [
  .main (.enter 0), .main .validated, .main (.enter 0), .main .scored, .main (.enter 0),
  .main .reported, .main .leave]

section

attribute [local instance] asciiTables

example :
    (Machine.run (Orchestrator.step builtinRegistry (scanRecord ["security_headers"]) {})
      (.created 1 [] false none)
      (throughPolicy [sampleEndpoint] ++ throughDispatch ++ runAgent 0 ++
        throughReplan ["security_headers"] ++ throughReport)).map
        (fun o ↦ (o.assessment.state, o.steps.map (·.status), o.main.isSome, o.sent)) =
      some (.COMPLETED, [.done], false, 1) := by
  decide +kernel

end

end Sentrik
