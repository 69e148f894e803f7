import Mathlib.Algebra.GroupWithZero.Nat
import Mathlib.Algebra.Order.BigOperators.Group.List
import Sentrik.Library.Gate
import Sentrik.Library.Progress
import Sentrik.Orchestration.Batches

/-!
# The agent pool

A pool runs the calls of `_run_one` as tasks of the event loop, each inside the semaphore of the pool. A
step is what happens between two suspensions: a task starts and has its slot or waits, a waiter that was
woken goes on, or the call of an agent ends. The tasks interleave freely; how long an agent takes, whether
it is timed out and what the cancel predicate answers are up to the environment.

The counters of `PoolStats` are kept as the calls end, in whatever order. `Inv.counted` says that this order
plays no part: each counter is the sum of what the outcomes so far contribute to it.
-/

namespace Sentrik

/-- How a call of `_run_one` ends. -/
inductive Outcome
  /-- The cancel predicate says so, and the agent does not run. -/
  | cancelled
  | timeout
  | raised (exc : Text)
  | returned (result : AgentResult)
  deriving DecidableEq, Repr

/-- The result that is handed on. -/
def Outcome.result (a : Agent) : Outcome → AgentResult
  | .cancelled => a.aborted "cancelled".toList
  | .timeout => a.aborted "timeout".toList
  | .raised exc => a.aborted exc
  | .returned result => result

/-- How the call of an agent may end once it runs. Its result has the id and the role of the agent. -/
def Outcome.fits (a : Agent) : Outcome → Bool
  | .cancelled => false
  | .timeout | .raised _ => true
  | .returned result => result.agent_id == a.id && result.role == a.role

inductive PoolTaskState
  | created
  /-- In the queue of the semaphore. -/
  | waiting
  | running
  | finished (outcome : Outcome)
  deriving DecidableEq, Repr

structure PoolTask where
  agent : Agent
  state : PoolTaskState := .created
  deriving DecidableEq, Repr

/-- The counters; the two tables are read with a default of zero. -/
structure PoolStats where
  instantiated : ℕ := 0
  completed : ℕ := 0
  errored : ℕ := 0
  skipped_cancelled : ℕ := 0
  findings : ℕ := 0
  decisions : ℕ := 0
  by_role : String → ℕ := fun _ ↦ 0
  brain_sources : String → ℕ := fun _ ↦ 0

namespace PoolStats

/-- Count one more under a key. -/
def bump (table : String → ℕ) (key : String) : String → ℕ :=
  fun k ↦ if k = key then table k + 1 else table k

def _tally (stats : PoolStats) (result : AgentResult) : PoolStats :=
  { stats with
    completed := stats.completed + 1
    errored := if result.error ≠ [] then stats.errored + 1 else stats.errored
    findings := stats.findings + result.findings.length
    decisions := stats.decisions + result.decisions.length
    by_role := bump stats.by_role result.role
    brain_sources := result.decisions.foldl (fun table d ↦ bump table d.brain_source)
      stats.brain_sources }

/-- What the end of a call writes. -/
def record (stats : PoolStats) : Outcome → PoolStats
  | .cancelled => { stats with skipped_cancelled := stats.skipped_cancelled + 1 }
  | .timeout | .raised _ => { stats with errored := stats.errored + 1 }
  | .returned result => stats._tally result

end PoolStats

structure AgentPool where
  max_concurrency : ℕ
  _sem : Semaphore ℕ
  stats : PoolStats := {}
  tasks : List PoolTask := []

inductive PoolEvent
  /-- A call of `run` or `run_streaming`. -/
  | dispatch (agents : List Agent)
  /-- The task starts; `cancelled` is what the predicate answers, if there is one and it does not raise. -/
  | begin (i : ℕ) (cancelled : Option Bool)
  /-- A woken waiter goes on. -/
  | resume (i : ℕ) (cancelled : Option Bool)
  | ended (i : ℕ) (outcome : Outcome)

def PoolEvent.dispatches : PoolEvent → Bool
  | dispatch _ => true
  | _ => false

namespace AgentPool

def init (max_concurrency : ℤ) : AgentPool where
  max_concurrency := (max 1 max_concurrency).toNat
  _sem := ⟨(max 1 max_concurrency).toNat, []⟩

def setSem (p : AgentPool) (_sem : Semaphore ℕ) : AgentPool := { p with _sem }

def setState (p : AgentPool) (i : ℕ) (t : PoolTask) (state : PoolTaskState) : AgentPool :=
  { p with tasks := p.tasks.set i { t with state } }

/-- A call ends: its outcome is counted, and its slot is released. -/
def finish (p : AgentPool) (i : ℕ) (t : PoolTask) (outcome : Outcome) : AgentPool :=
  { p.setState i t (.finished outcome) with
    stats := p.stats.record outcome
    _sem := p._sem.release }

def _cancelled (answer : Option Bool) : Bool := answer.getD false

/-- Inside the semaphore. -/
def enter (p : AgentPool) (i : ℕ) (t : PoolTask) (answer : Option Bool) : AgentPool :=
  if _cancelled answer then p.finish i t .cancelled else p.setState i t .running

def step (p : AgentPool) : PoolEvent → Option AgentPool
  | .dispatch agents =>
    some { p with
      stats := { p.stats with instantiated := p.stats.instantiated + agents.length }
      tasks := p.tasks ++ agents.map fun agent ↦ { agent } }
  | .begin i answer =>
    p.tasks[i]?.bind fun t ↦
      if t.state = .created then
        let (_sem, entered) := p._sem.acquire i
        some (if entered then (p.setSem _sem).enter i t answer else (p.setSem _sem).setState i t .waiting)
      else none
  | .resume i answer =>
    p.tasks[i]?.bind fun t ↦
      if t.state = .waiting then (p._sem.resume i).map fun _sem ↦ (p.setSem _sem).enter i t answer
      else none
  | .ended i outcome =>
    p.tasks[i]?.bind fun t ↦
      if t.state = .running ∧ outcome.fits t.agent then some (p.finish i t outcome) else none

/-- How many agents run. -/
def running (p : AgentPool) : ℕ := p.tasks.countP (·.state == .running)

end AgentPool

/-- The result of a task that is done. -/
def PoolTask.result (t : PoolTask) : Option AgentResult :=
  match t.state with
  | .finished outcome => some (outcome.result t.agent)
  | _ => none

/-- What `run` returns, once every task is done: the results in the order of the agents. -/
def AgentPool.results (p : AgentPool) : Option (List AgentResult) := p.tasks.mapM (·.result)

/-! ### Counting -/

/-- The counters that are written when a call ends. -/
inductive Counter
  | completed | errored | skipped_cancelled | findings | decisions
  | by_role (role : String)
  | brain_sources (source : String)

def PoolStats.get (stats : PoolStats) : Counter → ℕ
  | .completed => stats.completed
  | .errored => stats.errored
  | .skipped_cancelled => stats.skipped_cancelled
  | .findings => stats.findings
  | .decisions => stats.decisions
  | .by_role role => stats.by_role role
  | .brain_sources source => stats.brain_sources source

/-- What an outcome contributes to a counter. A result with an error counts as completed **and** as
errored; a call without a result counts as errored only. -/
def Outcome.count : Outcome → Counter → ℕ
  | .cancelled, .skipped_cancelled => 1
  | .timeout, .errored | .raised _, .errored => 1
  | .returned _, .completed => 1
  | .returned result, .errored => if result.error ≠ [] then 1 else 0
  | .returned result, .findings => result.findings.length
  | .returned result, .decisions => result.decisions.length
  | .returned result, .by_role role => if role = result.role then 1 else 0
  | .returned result, .brain_sources source => result.decisions.countP (·.brain_source == source)
  | _, _ => 0

def PoolTask.count (t : PoolTask) (c : Counter) : ℕ :=
  match t.state with
  | .finished outcome => outcome.count c
  | _ => 0

/-- Counting under keys. -/
theorem foldl_bump {α : Type*} (key : α → String) (l : List α) (table : String → ℕ) (k : String) :
    l.foldl (fun table a ↦ PoolStats.bump table (key a)) table k =
      table k + l.countP (key · == k) := by
  induction l generalizing table with
  | nil => rfl
  | cons a l ih =>
    rw [List.foldl_cons, ih, PoolStats.bump, List.countP_cons]
    by_cases h : k = key a
    · simp [h]
      omega
    · simp [h, Ne.symm h]

/-- **The end of a call adds its contribution.** -/
theorem PoolStats.get_record (stats : PoolStats) (outcome : Outcome) (c : Counter) :
    (stats.record outcome).get c = stats.get c + outcome.count c := by
  cases outcome with
  | cancelled | timeout | raised exc => cases c <;> rfl
  | returned result =>
    cases c with
    | errored =>
      change (if result.error ≠ [] then stats.errored + 1 else stats.errored) = _
      by_cases h : result.error = [] <;> simp [get, Outcome.count, h]
    | by_role role =>
      change PoolStats.bump stats.by_role result.role role = _
      by_cases h : role = result.role <;> simp [get, Outcome.count, bump, h]
    | brain_sources source => exact foldl_bump DecisionRecord.brain_source _ _ _
    | _ => rfl

/-! ### The invariant -/

namespace AgentPool

/-- The counters agree with the tasks, and a result is that of the task's agent. -/
structure Booked (p : AgentPool) : Prop where
  instantiated : p.stats.instantiated = p.tasks.length
  counted : ∀ c, p.stats.get c = (p.tasks.map (·.count c)).sum
  fitted : ∀ t ∈ p.tasks, ∀ result ∈ t.result, result.agent_id = t.agent.id ∧ result.role = t.agent.role

/-- The queue of the semaphore is the tasks that wait. -/
structure Queued (p : AgentPool) : Prop where
  waiting : ∀ i, i ∈ p._sem.waiters.map Prod.fst ↔ ∃ t, p.tasks[i]? = some t ∧ t.state = .waiting
  nodup : (p._sem.waiters.map Prod.fst).Nodup

/-- **The invariant of a pool.** -/
structure Inv (p : AgentPool) : Prop extends Booked p, Queued p where
  slots : 0 < p.max_concurrency
  balanced : p._sem.Balanced p.max_concurrency p.running

theorem Inv.init (max_concurrency : ℤ) : Inv (init max_concurrency) where
  instantiated := rfl
  counted c := by cases c <;> rfl
  fitted t ht := absurd ht List.not_mem_nil
  waiting i := by simp [AgentPool.init]
  nodup := List.nodup_nil
  slots := by
    have : (1 : ℤ) ≤ max 1 max_concurrency := le_max_left _ _
    change 0 < (max 1 max_concurrency).toNat
    omega
  balanced := Semaphore.balanced_init _

variable {p p' : AgentPool} {i : ℕ} {t : PoolTask} {state : PoolTaskState} {outcome : Outcome}

/-! #### One task gets another state -/

/-- What a task contributes before it is done. -/
theorem count_eq_zero (hresult : t.result = none) (c : Counter) : t.count c = 0 := by
  rw [PoolTask.result] at hresult
  rw [PoolTask.count]
  split at hresult
  · cases hresult
  · rfl

theorem Booked.setState (h : Booked p) (ht : p.tasks[i]? = some t) (hold : t.result = none)
    (hnew : ({ t with state } : PoolTask).result = none) : Booked (p.setState i t state) where
  instantiated := h.instantiated.trans List.length_set.symm
  counted c := by
    have hsum := sum_map_set_add ht { t with state } (·.count c)
    rw [count_eq_zero hold, count_eq_zero hnew] at hsum
    exact (h.counted c).trans hsum.symm
  fitted t' ht' result hresult := by
    rcases List.mem_or_eq_of_mem_set ht' with ht' | rfl
    · exact h.fitted t' ht' result hresult
    · rw [hnew] at hresult
      cases hresult

/-- The end of a call writes what the task then contributes. -/
theorem Booked.finish (h : Booked p) (ht : p.tasks[i]? = some t) (hold : t.result = none)
    (hfits : (outcome.result t.agent).agent_id = t.agent.id ∧ (outcome.result t.agent).role = t.agent.role) :
    Booked (p.finish i t outcome) where
  instantiated := by
    have hlength := h.instantiated.trans (List.length_set (i := i) (a := { t with state := .finished outcome })).symm
    cases outcome <;> exact hlength
  counted c := by
    have hsum := sum_map_set_add ht { t with state := .finished outcome } (·.count c)
    rw [count_eq_zero hold, Nat.add_zero] at hsum
    exact (PoolStats.get_record p.stats outcome c).trans ((congrArg (· + _) (h.counted c)).trans hsum.symm)
  fitted t' ht' result hresult := by
    rcases List.mem_or_eq_of_mem_set ht' with ht' | rfl
    · exact h.fitted t' ht' result hresult
    · obtain rfl := Option.some.inj hresult
      exact hfits

/-- A result the pool makes up is that of the agent. -/
theorem fits_result (h : outcome.fits t.agent = true) :
    (outcome.result t.agent).agent_id = t.agent.id ∧ (outcome.result t.agent).role = t.agent.role := by
  cases outcome with
  | cancelled => cases h
  | timeout | raised exc => exact ⟨rfl, rfl⟩
  | returned result =>
    rw [Outcome.fits, Bool.and_eq_true, beq_iff_eq, beq_iff_eq] at h
    exact h

/-! #### Steps -/

theorem result_eq_none (h : ∀ outcome, t.state ≠ .finished outcome) : t.result = none := by
  rw [PoolTask.result]
  split
  next outcome hstate => exact absurd hstate (h outcome)
  next => rfl

/-- The semaphore stands among the tasks. -/
theorem Inv.guards (h : Inv p) :
    Semaphore.Guards p.max_concurrency (·.state == .waiting) (·.state == .running) p.tasks p._sem where
  waiting i := (h.waiting i).trans (by simp)
  nodup := h.nodup
  balanced := h.balanced

theorem Inv.of_guards (slots : 0 < p.max_concurrency) (hB : Booked p)
    (h : Semaphore.Guards p.max_concurrency (·.state == .waiting) (·.state == .running) p.tasks p._sem) : Inv p where
  toBooked := hB
  waiting i := (h.waiting i).trans (by simp)
  nodup := h.nodup
  slots := slots
  balanced := h.balanced

/-- A call ends: the slot it has held is released. -/
theorem Inv.finish (slots : 0 < p.max_concurrency) (hB : Booked p) (ht : p.tasks[i]? = some t)
    (hold : t.result = none)
    (hfits : (outcome.result t.agent).agent_id = t.agent.id ∧ (outcome.result t.agent).role = t.agent.role)
    (h : Semaphore.Guards p.max_concurrency (·.state == .waiting) (·.state == .running)
      (p.tasks.set i { t with state := .finished outcome }) p._sem.release) : Inv (p.finish i t outcome) :=
  .of_guards slots (hB.finish ht hold hfits) h

/-- A task that has just got its slot runs its agent, or ends at once. -/
theorem Inv.enter (slots : 0 < p.max_concurrency) (hB : Booked p) (ht : p.tasks[i]? = some t)
    (hold : t.result = none)
    (h : Semaphore.Guards p.max_concurrency (·.state == .waiting) (·.state == .running)
      (p.tasks.set i { t with state := .running }) p._sem) (answer : Option Bool) : Inv (p.enter i t answer) := by
  rw [AgentPool.enter]
  split
  · refine .finish slots hB ht hold ⟨rfl, rfl⟩ ?_
    rw [← List.set_set]
    exact h.release (Puts.set ht _).self rfl rfl rfl rfl
  · exact .of_guards slots (hB.setState ht hold rfl) h

/-- New tasks are created, and have no result. -/
theorem Booked.dispatch (h : Booked p) (agents : List Agent) :
    Booked { p with
      stats := { p.stats with instantiated := p.stats.instantiated + agents.length }
      tasks := p.tasks ++ agents.map fun agent ↦ { agent } } where
  instantiated := by simp [h.instantiated]
  counted c := by
    have hzero : (agents.map fun agent ↦ ({ agent } : PoolTask).count c).sum = 0 :=
      List.sum_eq_zero fun n hn ↦ by
        obtain ⟨agent, -, rfl⟩ := List.mem_map.1 hn
        rfl
    have hget : PoolStats.get { p.stats with
        instantiated := p.stats.instantiated + agents.length } c = p.stats.get c := by
      cases c <;> rfl
    rw [hget, h.counted c, List.map_append, List.sum_append, List.map_map]
    exact (congrArg (_ + ·) hzero).symm
  fitted t ht result hresult := by
    rcases List.mem_append.1 ht with ht | ht
    · exact h.fitted t ht result hresult
    · obtain ⟨agent, -, rfl⟩ := List.mem_map.1 ht
      cases hresult

/-- New tasks are created, and none of them waits. -/
theorem Inv.dispatch (h : Inv p) (agents : List Agent) :
    Inv { p with
      stats := { p.stats with instantiated := p.stats.instantiated + agents.length }
      tasks := p.tasks ++ agents.map fun agent ↦ { agent } } := by
  refine .of_guards h.slots (h.toBooked.dispatch agents) (h.guards.append ?_ ?_)
  all_goals
    intro t ht
    obtain ⟨agent, -, rfl⟩ := List.mem_map.1 ht
    rfl

/-- A task starts. -/
theorem Inv.begin (h : Inv p) (ht : p.tasks[i]? = some t) (hstate : t.state = .created)
    (answer : Option Bool) :
    Inv (if (p._sem.acquire i).2 then (p.setSem (p._sem.acquire i).1).enter i t answer
      else (p.setSem (p._sem.acquire i).1).setState i t .waiting) := by
  have hold : t.result = none := result_eq_none fun outcome h ↦ by rw [hstate] at h; cases h
  have hbooked : Booked (p.setSem (p._sem.acquire i).1) := ⟨h.instantiated, h.counted, h.fitted⟩
  split
  next hentered =>
    exact .enter (p := p.setSem (p._sem.acquire i).1) h.slots hbooked ht hold
      (h.guards.acquire ht (by rw [hstate]; rfl) (by rw [hstate]; rfl) (by rw [hentered]; rfl)
        (by rw [hentered]; rfl)) answer
  next hwaits =>
    rw [Bool.not_eq_true] at hwaits
    exact .of_guards (p := (p.setSem (p._sem.acquire i).1).setState i t .waiting) h.slots
      (hbooked.setState ht hold rfl)
      (h.guards.acquire ht (by rw [hstate]; rfl) (by rw [hstate]; rfl) (by rw [hwaits]; rfl)
        (by rw [hwaits]; rfl))

/-- A woken waiter goes on. -/
theorem Inv.resume (h : Inv p) (ht : p.tasks[i]? = some t) (hstate : t.state = .waiting)
    {s : Semaphore ℕ} (hs : p._sem.resume i = some s) (answer : Option Bool) :
    Inv ((p.setSem s).enter i t answer) := by
  have hold : t.result = none := result_eq_none fun outcome h ↦ by rw [hstate] at h; cases h
  exact .enter (p := p.setSem s) h.slots ⟨h.instantiated, h.counted, h.fitted⟩ ht hold
    (h.guards.resume ht (by rw [hstate]; rfl) rfl rfl hs) answer

/-- The call of an agent ends. -/
theorem Inv.ended (h : Inv p) (ht : p.tasks[i]? = some t) (hstate : t.state = .running)
    (hfits : outcome.fits t.agent = true) : Inv (p.finish i t outcome) := by
  have hold : t.result = none := result_eq_none fun outcome h ↦ by rw [hstate] at h; cases h
  exact .finish h.slots h.toBooked ht hold (fits_result hfits)
    (h.guards.release ht (by rw [hstate]; rfl) (by rw [hstate]; rfl) rfl rfl)

/-- **Every step of the pool keeps the invariant.** -/
theorem Inv.step {e : PoolEvent} (h : Inv p) (hs : p.step e = some p') : Inv p' := by
  cases e with
  | dispatch agents => exact Option.some.inj hs ▸ h.dispatch agents
  | begin i answer =>
    obtain ⟨t, ht, hs⟩ := Option.bind_eq_some_iff.1 hs
    split at hs
    next hstate => exact Option.some.inj hs ▸ h.begin ht hstate answer
    next => cases hs
  | resume i answer =>
    obtain ⟨t, ht, hs⟩ := Option.bind_eq_some_iff.1 hs
    split at hs
    next hstate =>
      obtain ⟨s, hresume, rfl⟩ := Option.map_eq_some_iff.1 hs
      exact h.resume ht hstate hresume answer
    next => cases hs
  | ended i outcome =>
    obtain ⟨t, ht, hs⟩ := Option.bind_eq_some_iff.1 hs
    split at hs
    next hcond => exact Option.some.inj hs ▸ h.ended ht hcond.1 hcond.2
    next => cases hs

theorem inv_of_run {max_concurrency : ℤ} {es : List PoolEvent}
    (h : Machine.run AgentPool.step (init max_concurrency) es = some p) : Inv p :=
  Machine.inv_of_run (fun hI hs ↦ hI.step hs) h (.init max_concurrency)

end AgentPool

/-! ### What is left to do -/

/-- How many steps a task has before it, at most. -/
def PoolTaskState.stage : PoolTaskState → ℕ
  | .created => 3
  | .waiting => 2
  | .running => 1
  | .finished _ => 0

namespace AgentPool

/-- How many steps the tasks have before them, at most. -/
def remaining (p : AgentPool) : ℕ := (p.tasks.map (·.state.stage)).sum

def agents (p : AgentPool) : List Agent := p.tasks.map (·.agent)

variable {p p' : AgentPool} {i : ℕ} {t : PoolTask} {state : PoolTaskState} {outcome : Outcome}
variable {e : PoolEvent}

theorem remaining_setState (ht : p.tasks[i]? = some t) (h : state.stage < t.state.stage) :
    (p.setState i t state).remaining < p.remaining := by
  have hsum : (p.setState i t state).remaining + t.state.stage = p.remaining + state.stage :=
    sum_map_set_add ht { t with state } (·.state.stage)
  omega

theorem agents_setState (ht : p.tasks[i]? = some t) (state : PoolTaskState) :
    (p.setState i t state).agents = p.agents :=
  map_set_of_eq ht rfl

/-- A step of a task that leaves its slot taken or not. -/
theorem advance_enter (ht : p.tasks[i]? = some t) (h : 1 < t.state.stage) (answer : Option Bool) :
    (p.enter i t answer).remaining < p.remaining ∧ (p.enter i t answer).agents = p.agents := by
  rw [enter]
  split
  · exact ⟨remaining_setState ht (Nat.lt_of_succ_lt h), agents_setState ht _⟩
  · exact ⟨remaining_setState ht h, agents_setState ht _⟩

/-- **Every step of a task brings the pool forward.** -/
theorem advance_of_step (hd : e.dispatches = false) (hs : p.step e = some p') :
    p'.remaining < p.remaining ∧ p'.agents = p.agents := by
  cases e with
  | dispatch agents => cases hd
  | begin i answer =>
    obtain ⟨t, ht, hs⟩ := Option.bind_eq_some_iff.1 hs
    split at hs
    next hstate =>
      rw [← Option.some.inj hs]
      dsimp only
      split
      · exact advance_enter (p := p.setSem (p._sem.acquire i).1) ht (by rw [hstate]; decide) answer
      · exact ⟨remaining_setState (p := p.setSem (p._sem.acquire i).1) ht (by rw [hstate]; decide),
          agents_setState (p := p.setSem (p._sem.acquire i).1) ht _⟩
    next => cases hs
  | resume i answer =>
    obtain ⟨t, ht, hs⟩ := Option.bind_eq_some_iff.1 hs
    split at hs
    next hstate =>
      obtain ⟨s, -, rfl⟩ := Option.map_eq_some_iff.1 hs
      exact advance_enter (p := p.setSem s) ht (by rw [hstate]; decide) answer
    next => cases hs
  | ended i outcome =>
    obtain ⟨t, ht, hs⟩ := Option.bind_eq_some_iff.1 hs
    split at hs
    next hcond =>
      rw [← Option.some.inj hs]
      exact ⟨remaining_setState ht (by rw [hcond.1]; exact Nat.one_pos), agents_setState ht _⟩
    next => cases hs

/-- **No deadlock.** While a task is not done, some task has a step. -/
theorem enabled_of_open (h : Inv p) (ht : p.tasks[i]? = some t) (hopen : t.result = none) :
    ∃ e, e.dispatches = false ∧ (p.step e).isSome := by
  have hrunning : ∀ {j : ℕ} {t : PoolTask}, p.tasks[j]? = some t → t.state = .running →
      ∃ e, e.dispatches = false ∧ (p.step e).isSome := fun {j t} ht hstate ↦
    ⟨.ended j .timeout, rfl, by simp [step, ht, hstate, Outcome.fits]⟩
  cases hstate : t.state with
  | finished outcome => simp [PoolTask.result, hstate] at hopen
  | created => exact ⟨.begin i none, rfl, by simp [step, ht, hstate]⟩
  | running => exact hrunning ht hstate
  | waiting =>
    obtain ⟨j, u, hu, hwaits, hwoken⟩ | ⟨j, u, hu, hruns⟩ :=
      h.guards.progress h.slots ht (by rw [hstate]; rfl)
    · have hst : u.state = .waiting := beq_iff_eq.1 hwaits
      exact ⟨.resume j none, rfl, by simp [step, hu, hst, Semaphore.resume, hwoken]⟩
    · exact hrunning hu (beq_iff_eq.1 hruns)

/-- Nothing is left to do once every task is done. -/
theorem stuck_of_done (hdone : ∀ t ∈ p.tasks, t.result ≠ none) (hd : e.dispatches = false) :
    p.step e = none := by
  have hzero : p.remaining = 0 := List.sum_eq_zero fun n hn ↦ by
    obtain ⟨t, ht, rfl⟩ := List.mem_map.1 hn
    have hresult := hdone t ht
    rw [PoolTask.result] at hresult
    split at hresult
    next outcome hstate => rw [hstate]; rfl
    next => exact absurd rfl hresult
  refine Option.eq_none_iff_forall_ne_some.2 fun p' hs ↦ ?_
  have := (advance_of_step hd hs).1
  omega

/-- The results, once every task is done. -/
theorem results_of_done (h : Inv p) (hdone : ∀ t ∈ p.tasks, t.result ≠ none) :
    ∃ results, p.results = some results ∧ results.map (·.agent_id) = p.agents.map (·.id) := by
  have hlist : ∀ tasks : List PoolTask, (∀ t ∈ tasks, t ∈ p.tasks) →
      ∃ results, tasks.mapM (·.result) = some results ∧
        results.map (·.agent_id) = (tasks.map (·.agent)).map (·.id) := by
    intro tasks
    induction tasks with
    | nil => exact fun _ ↦ ⟨[], rfl, rfl⟩
    | cons t tasks ih =>
      intro hsub
      obtain ⟨results, hresults, hids⟩ := ih fun t' ht' ↦ hsub t' (List.mem_cons_of_mem _ ht')
      have ht := hsub t List.mem_cons_self
      obtain ⟨result, hresult⟩ := Option.ne_none_iff_exists'.1 (hdone t ht)
      refine ⟨result :: results, by simp [List.mapM_cons, hresult, hresults], ?_⟩
      simp only [List.map_cons]
      rw [(h.fitted t ht result hresult).1, hids]
  exact hlist p.tasks fun t ht ↦ ht

/-! ### Runs -/

theorem max_concurrency_of_run {max_concurrency : ℤ} {es : List PoolEvent}
    (h : Machine.run AgentPool.step (init max_concurrency) es = some p) :
    p.max_concurrency = (max 1 max_concurrency).toNat := by
  refine Machine.inv_of_run (I := fun p ↦ p.max_concurrency = (max 1 max_concurrency).toNat)
    (fun {p e p'} hp hs ↦ ?_) h rfl
  have henter : ∀ {p : AgentPool} {i : ℕ} {t : PoolTask} {answer : Option Bool},
      (p.enter i t answer).max_concurrency = p.max_concurrency := by
    intro p i t answer
    rw [enter]
    split <;> rfl
  cases e with
  | dispatch agents => exact Option.some.inj hs ▸ hp
  | begin i answer =>
    obtain ⟨t, -, hs⟩ := Option.bind_eq_some_iff.1 hs
    split at hs
    · rw [← Option.some.inj hs]
      dsimp only
      split
      · exact henter.trans hp
      · exact hp
    · cases hs
  | resume i answer =>
    obtain ⟨t, -, hs⟩ := Option.bind_eq_some_iff.1 hs
    split at hs
    · obtain ⟨s, -, rfl⟩ := Option.map_eq_some_iff.1 hs
      exact henter.trans hp
    · cases hs
  | ended i outcome =>
    obtain ⟨t, -, hs⟩ := Option.bind_eq_some_iff.1 hs
    split at hs
    · exact Option.some.inj hs ▸ hp
    · cases hs

/-- **The concurrency limit, and no idle slot.** In every run at most `max(1, max_concurrency)` agents run
at once; and when a task waits that nobody has woken, and no woken task is about to go on, exactly that many
do. -/
theorem concurrency_of_run {max_concurrency : ℤ} {es : List PoolEvent}
    (h : Machine.run AgentPool.step (init max_concurrency) es = some p) :
    p.running ≤ (max 1 max_concurrency).toNat ∧
      (0 < p._sem.pending → p._sem.woken = 0 → p.running = (max 1 max_concurrency).toNat) := by
  have hI := inv_of_run h
  rw [← max_concurrency_of_run h]
  exact ⟨hI.balanced.held_le, hI.balanced.saturated⟩

/-- **The counters do not depend on the order.** In every run, whatever interleaving of starts, waits,
timeouts, errors and results has led to it, each counter is the sum of what the calls that have ended
contribute, and `instantiated` is the number of agents that were dispatched. -/
theorem stats_of_run {max_concurrency : ℤ} {es : List PoolEvent}
    (h : Machine.run AgentPool.step (init max_concurrency) es = some p) :
    p.stats.instantiated = p.tasks.length ∧ ∀ c, p.stats.get c = (p.tasks.map (·.count c)).sum :=
  ⟨(inv_of_run h).instantiated, (inv_of_run h).counted⟩

/-- **Every pool comes to its end.** After any run, the tasks take at most three further steps each, in any
interleaving; and when none of them has a step left, `run` returns one result for each agent, in the order of
the agents. -/
theorem completes_of_run {max_concurrency : ℤ} {es es' : List PoolEvent}
    (h : Machine.run AgentPool.step (init max_concurrency) es = some p)
    (h' : Machine.run AgentPool.step p es' = some p') (hd : ∀ e ∈ es', e.dispatches = false) :
    es'.length ≤ 3 * p.tasks.length ∧
      ((∀ e, e.dispatches = false → p'.step e = none) →
        ∃ results, p'.results = some results ∧
          results.map (·.agent_id) = p.agents.map (·.id)) := by
  have hbound : p.remaining ≤ 3 * p.tasks.length := by
    rw [remaining, Nat.mul_comm]
    refine (List.sum_le_card_nsmul _ 3 fun n hn ↦ ?_).trans ?_
    · obtain ⟨t, -, rfl⟩ := List.mem_map.1 hn
      cases t.state <;> simp [PoolTaskState.stage]
    · simp
  have hle : es'.length + p'.remaining ≤ p.remaining :=
    Machine.length_add_rank_le (fun hd hs ↦ (advance_of_step hd hs).1) h' hd
  have hagents : p'.agents = p.agents :=
    Machine.inv_of_run_where (I := fun u ↦ u.agents = p.agents)
      (fun hd hsame hs ↦ (advance_of_step hd hs).2.trans hsame) h' hd rfl
  have hI' : Inv p' := Machine.inv_of_run (fun hI hs ↦ hI.step hs) h' (inv_of_run h)
  refine ⟨by omega, fun hstuck ↦ ?_⟩
  obtain ⟨results, hresults, hids⟩ := results_of_done hI' fun t ht hopen ↦ by
    obtain ⟨i, hi⟩ := List.mem_iff_getElem?.1 ht
    obtain ⟨e, he, hsome⟩ := enabled_of_open hI' hi hopen
    rw [hstuck e he] at hsome
    cases hsome
  exact ⟨results, hresults, hagents ▸ hids⟩

end AgentPool

/-- An agent of a batch. -/
def samplePoolAgent (i : ℕ) : Agent where
  id := (0, i)
  role := "specialist"

/-- Two agents and one slot: the second one waits, and is cancelled when its turn comes. -/
def onePlace : List PoolEvent := [
  .dispatch [samplePoolAgent 0, samplePoolAgent 1], .begin 0 none, .begin 1 none]

def onePlaceEnds : List PoolEvent :=
  [.ended 0 (.returned ((samplePoolAgent 0).result [])), .resume 1 (some true)]

theorem concurrency_of_run_onePlace : ∃ p, Machine.run AgentPool.step (.init 0) onePlace = some p ∧
    p._sem.pending = 1 ∧ p.running ≤ (max 1 (0 : ℤ)).toNat ∧
      (0 < p._sem.pending → p._sem.woken = 0 → p.running = (max 1 (0 : ℤ)).toNat) := by
  obtain ⟨p, h, hpending⟩ : ∃ p, Machine.run AgentPool.step (.init 0) onePlace = some p ∧
      p._sem.pending = 1 := ⟨_, rfl, by decide +kernel⟩
  exact ⟨p, h, hpending, AgentPool.concurrency_of_run h⟩

theorem stats_of_run_onePlace : ∃ p,
    Machine.run AgentPool.step (.init 0) (onePlace ++ onePlaceEnds) = some p ∧
      p.stats.completed = 1 ∧ p.stats.skipped_cancelled = 1 ∧ p.stats.instantiated = p.tasks.length ∧
        ∀ c, p.stats.get c = (p.tasks.map (·.count c)).sum := by
  obtain ⟨p, h, hcompleted, hskipped⟩ : ∃ p,
      Machine.run AgentPool.step (.init 0) (onePlace ++ onePlaceEnds) = some p ∧
        p.stats.completed = 1 ∧ p.stats.skipped_cancelled = 1 :=
    ⟨_, rfl, by decide +kernel, by decide +kernel⟩
  exact ⟨p, h, hcompleted, hskipped, AgentPool.stats_of_run h⟩

theorem completes_of_run_onePlace : ∃ p p', Machine.run AgentPool.step (.init 0) onePlace = some p ∧
    Machine.run AgentPool.step p onePlaceEnds = some p' ∧ onePlaceEnds.length ≤ 3 * p.tasks.length ∧
      ∃ results, p'.results = some results ∧
        results.map (·.agent_id) = p.agents.map (·.id) := by
  obtain ⟨p, h, p', h', hdone⟩ : ∃ p, Machine.run AgentPool.step (.init 0) onePlace = some p ∧
      ∃ p', Machine.run AgentPool.step p onePlaceEnds = some p' ∧
        ∀ t ∈ p'.tasks, t.result ≠ none := ⟨_, rfl, _, rfl, by decide +kernel⟩
  obtain ⟨hlength, hresults⟩ := AgentPool.completes_of_run h h' (by decide)
  exact ⟨p, p', h, h', hlength, hresults fun e he ↦ AgentPool.stuck_of_done hdone he⟩

end Sentrik
