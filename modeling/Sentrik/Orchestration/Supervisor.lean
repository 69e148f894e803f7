import Mathlib.Algebra.GroupWithZero.Nat
import Mathlib.Algebra.Order.BigOperators.Group.List
import Mathlib.Data.List.Sort
import Sentrik.Library.Gate
import Sentrik.Library.Progress

/-!
# The run registry and its quotas

`start_assessment` and `start_approved_steps` put a task on the event loop and note it in `_running`. A run
goes through two gates, the slots of its organization first and then the global ones, and has its place in
both until it ends. The execution of approved steps takes a global slot only, so the quota of an organization
says nothing about how many of those it has.

A step is what happens between two suspensions. Taking a slot that is free does not suspend, nor does what a
run does on its way out: it leaves the registry and gives both slots back at once. How long the engine takes
and how it ends is left to the environment, and so is the order in which the tasks go on.

The two gates are two semaphores around the same tasks, so `Inv` holds one `Semaphore.Guards` for the global
slots and one for each organization.
-/

namespace Sentrik

/-- The keys of `_running`: `assessment_id`, and `assessment_id:steps:ids` with the ids in order. -/
inductive RunKey
  | assessment (assessment_id : ℕ)
  | steps (assessment_id : ℕ) (step_ids : List ℕ)
  deriving DecidableEq, Repr

/-- The two limits of the settings, and the organizations of the stored assessments. -/
structure Quotas where
  max_concurrent_assessments : ℕ := 4
  max_concurrent_assessments_per_org : ℕ := 2
  org_id : ℕ → ℕ

inductive SupervisedState
  | created
  /-- `_org_id_of` reads the row of the assessment. -/
  | identifying
  | waiting_org
  | waiting_global
  | running
  | finished
  deriving DecidableEq, Repr

/-- Whether a run in this state is past the gate of its organization. -/
def SupervisedState.admitted : SupervisedState → Bool
  | waiting_global | running => true
  | _ => false

structure SupervisedTask where
  key : RunKey
  state : SupervisedState := .created
  deriving DecidableEq, Repr

/-- The registry, the semaphores as far as they were asked for, and all tasks there have been. -/
structure Supervisor where
  _running : RunKey → Option ℕ := fun _ ↦ none
  _global_sem : Option (Semaphore ℕ) := none
  _org_sems : ℕ → Option (Semaphore ℕ) := fun _ ↦ none
  tasks : List SupervisedTask := []

inductive SupervisorEvent
  | start_assessment (assessment_id : ℕ)
  | start_approved_steps (assessment_id : ℕ) (step_ids : List ℕ)
  /-- The task starts. -/
  | begin (i : ℕ)
  /-- The row was read; without it the task ends with an exception. -/
  | identified (i : ℕ) (found : Bool)
  /-- A task that was woken at one of the gates goes on. -/
  | resume_org (i : ℕ)
  | resume_global (i : ℕ)
  /-- The engine is done, whether it returned, was marked as failed, or raised. -/
  | ended (i : ℕ)
  deriving DecidableEq, Repr

/-- Whether the event is a request from outside. -/
def SupervisorEvent.launches : SupervisorEvent → Bool
  | start_assessment _ | start_approved_steps _ _ => true
  | _ => false

/-- The organization whose slots the task needs. -/
def RunKey.org_id (q : Quotas) : RunKey → Option ℕ
  | assessment assessment_id => some (q.org_id assessment_id)
  | steps _ _ => none

namespace SupervisedTask

variable (q : Quotas) (org_id : ℕ)

def waits (t : SupervisedTask) : Bool := t.state == .waiting_global

def runs (t : SupervisedTask) : Bool := t.state == .running

def waits_org (t : SupervisedTask) : Bool := t.state == .waiting_org && t.key.org_id q == some org_id

/-- Whether the task has a slot of the organization. -/
def holds_org (t : SupervisedTask) : Bool := t.state.admitted && t.key.org_id q == some org_id

end SupervisedTask

namespace Supervisor

variable (q : Quotas) (s : Supervisor)

def _sem : Semaphore ℕ := s._global_sem.getD ⟨q.max_concurrent_assessments, []⟩

def _org_sem (org_id : ℕ) : Semaphore ℕ :=
  (s._org_sems org_id).getD ⟨q.max_concurrent_assessments_per_org, []⟩

/-- Whether the registry has a task under the key that is not done. -/
def live (key : RunKey) : Bool :=
  ((s._running key).bind (s.tasks[·]?)).any (·.state != .finished)

def is_running (assessment_id : ℕ) : Bool := s.live (.assessment assessment_id)

/-- A task is created and noted, unless one is under way. -/
def launch (key : RunKey) : Supervisor :=
  if s.live key then s
  else { s with
    tasks := s.tasks ++ [{ key }]
    _running := Function.update s._running key (some s.tasks.length) }

def start_assessment (assessment_id : ℕ) : Supervisor := s.launch (.assessment assessment_id)

def start_approved_steps (assessment_id : ℕ) (step_ids : List ℕ) : Supervisor :=
  s.launch (.steps assessment_id (step_ids.insertionSort (· ≤ ·)))

def setState (i : ℕ) (t : SupervisedTask) (state : SupervisedState) : Supervisor :=
  { s with tasks := s.tasks.set i { t with state } }

def setSem (sem : Semaphore ℕ) : Supervisor := { s with _global_sem := some sem }

def setOrgSem (org_id : ℕ) (sem : Semaphore ℕ) : Supervisor :=
  { s with _org_sems := Function.update s._org_sems org_id (some sem) }

/-- `async with _sem()`. -/
def enter_global (i : ℕ) (t : SupervisedTask) : Supervisor :=
  let acquired := (s._sem q).acquire i
  (s.setSem acquired.1).setState i t (if acquired.2 then .running else .waiting_global)

/-- `await org_sem.acquire()`, and on to the global slots when that did not suspend. -/
def enter_org (i : ℕ) (t : SupervisedTask) (org_id : ℕ) : Supervisor :=
  let acquired := (s._org_sem q org_id).acquire i
  let s := s.setOrgSem org_id acquired.1
  if acquired.2 then s.enter_global q i t else s.setState i t .waiting_org

/-- The way out: the registry, the global slot, the slot of the organization. -/
def finish (i : ℕ) (t : SupervisedTask) : Supervisor :=
  let s := (s.setSem (s._sem q).release).setState i t .finished
  let s := { s with _running := Function.update s._running t.key none }
  match t.key.org_id q with
  | some org_id => s.setOrgSem org_id (s._org_sem q org_id).release
  | none => s

def step (s : Supervisor) : SupervisorEvent → Option Supervisor
  | .start_assessment assessment_id => some (s.start_assessment assessment_id)
  | .start_approved_steps assessment_id step_ids => some (s.start_approved_steps assessment_id step_ids)
  | .begin i =>
    s.tasks[i]?.bind fun t ↦
      if t.state = .created then
        match t.key.org_id q with
        | some _ => some (s.setState i t .identifying)
        | none => some (s.enter_global q i t)
      else none
  | .identified i found =>
    s.tasks[i]?.bind fun t ↦
      if t.state = .identifying then
        (t.key.org_id q).map fun org_id ↦ if found then s.enter_org q i t org_id else s.setState i t .finished
      else none
  | .resume_org i =>
    s.tasks[i]?.bind fun t ↦
      if t.state = .waiting_org then
        (t.key.org_id q).bind fun org_id ↦
          ((s._org_sem q org_id).resume i).map fun sem ↦ (s.setOrgSem org_id sem).enter_global q i t
      else none
  | .resume_global i =>
    s.tasks[i]?.bind fun t ↦
      if t.state = .waiting_global then
        ((s._sem q).resume i).map fun sem ↦ (s.setSem sem).setState i t .running
      else none
  | .ended i =>
    s.tasks[i]?.bind fun t ↦ if t.state = .running then some (s.finish q i t) else none

/-- How many runs and executions the engine works on. -/
def running : ℕ := s.tasks.countP SupervisedTask.runs

/-- How many runs of the organization are past its gate. -/
def admitted (org_id : ℕ) : ℕ := s.tasks.countP (SupervisedTask.holds_org q org_id)

end Supervisor

/-! ### What a step does -/

namespace Supervisor

variable {q : Quotas} {s s' : Supervisor} {i : ℕ} {t : SupervisedTask} {state : SupervisedState}
variable {e : SupervisorEvent}

/-- How a task moves on: its state before and after, and which gates are told. -/
inductive Moves (q : Quotas) (s : Supervisor) (i : ℕ) (t : SupervisedTask) : Supervisor → Prop
  | identify (horg : t.key.org_id q ≠ none) (hstate : t.state = .created) :
    Moves q s i t (s.setState i t .identifying)
  | missing (hstate : t.state = .identifying) : Moves q s i t (s.setState i t .finished)
  | queue {org_id : ℕ} (horg : t.key.org_id q = some org_id) (hstate : t.state = .identifying)
      (hfull : ((s._org_sem q org_id).acquire i).2 = false) :
    Moves q s i t ((s.setOrgSem org_id ((s._org_sem q org_id).acquire i).1).setState i t .waiting_org)
  | pass {org_id : ℕ} (horg : t.key.org_id q = some org_id) (hstate : t.state = .identifying)
      (hfree : ((s._org_sem q org_id).acquire i).2 = true) :
    Moves q s i t ((s.setOrgSem org_id ((s._org_sem q org_id).acquire i).1).enter_global q i t)
  | resume {org_id : ℕ} {sem : Semaphore ℕ} (horg : t.key.org_id q = some org_id) (hstate : t.state = .waiting_org)
      (hresume : (s._org_sem q org_id).resume i = some sem) :
    Moves q s i t ((s.setOrgSem org_id sem).enter_global q i t)
  | execute (horg : t.key.org_id q = none) (hstate : t.state = .created) :
    Moves q s i t (s.enter_global q i t)
  | run {sem : Semaphore ℕ} (hstate : t.state = .waiting_global) (hresume : (s._sem q).resume i = some sem) :
    Moves q s i t ((s.setSem sem).setState i t .running)
  | finish (hstate : t.state = .running) : Moves q s i t (s.finish q i t)

/-- **Every step launches a task or moves one on.** -/
theorem step_cases (hs : s.step q e = some s') :
    (e.launches = true ∧ ∃ key, s' = s.launch key) ∨
      (e.launches = false ∧ ∃ i t, s.tasks[i]? = some t ∧ Moves q s i t s') := by
  cases e with
  | start_assessment assessment_id => exact .inl ⟨rfl, _, (Option.some.inj hs).symm⟩
  | start_approved_steps assessment_id step_ids => exact .inl ⟨rfl, _, (Option.some.inj hs).symm⟩
  | begin i =>
    obtain ⟨t, ht, hs⟩ := Option.bind_eq_some_iff.1 hs
    refine .inr ⟨rfl, i, t, ht, ?_⟩
    split at hs
    next hstate =>
      cases horg : t.key.org_id q with
      | some org_id =>
        rw [horg] at hs
        exact Option.some.inj hs ▸ .identify (by simp [horg]) hstate
      | none =>
        rw [horg] at hs
        exact Option.some.inj hs ▸ .execute horg hstate
    next => cases hs
  | identified i found =>
    obtain ⟨t, ht, hs⟩ := Option.bind_eq_some_iff.1 hs
    refine .inr ⟨rfl, i, t, ht, ?_⟩
    split at hs
    next hstate =>
      obtain ⟨org_id, horg, rfl⟩ := Option.map_eq_some_iff.1 hs
      cases found with
      | false => exact .missing hstate
      | true =>
        cases hentered : ((s._org_sem q org_id).acquire i).2 with
        | true =>
          have hpass := Moves.pass horg hstate hentered
          simpa [enter_org, hentered] using hpass
        | false =>
          have hqueue := Moves.queue horg hstate hentered
          simpa [enter_org, hentered] using hqueue
    next => cases hs
  | resume_org i =>
    obtain ⟨t, ht, hs⟩ := Option.bind_eq_some_iff.1 hs
    refine .inr ⟨rfl, i, t, ht, ?_⟩
    split at hs
    next hstate =>
      obtain ⟨org_id, horg, hs⟩ := Option.bind_eq_some_iff.1 hs
      obtain ⟨sem, hresume, rfl⟩ := Option.map_eq_some_iff.1 hs
      exact .resume horg hstate hresume
    next => cases hs
  | resume_global i =>
    obtain ⟨t, ht, hs⟩ := Option.bind_eq_some_iff.1 hs
    refine .inr ⟨rfl, i, t, ht, ?_⟩
    split at hs
    next hstate =>
      obtain ⟨sem, hresume, rfl⟩ := Option.map_eq_some_iff.1 hs
      exact .run hstate hresume
    next => cases hs
  | ended i =>
    obtain ⟨t, ht, hs⟩ := Option.bind_eq_some_iff.1 hs
    refine .inr ⟨rfl, i, t, ht, ?_⟩
    split at hs
    next hstate => exact Option.some.inj hs ▸ .finish hstate
    next => cases hs

/-! ### The invariant -/

/-- **The invariant.** Both gates are kept, and the registry has every task that is not done. -/
structure Inv (q : Quotas) (s : Supervisor) : Prop where
  gate : Semaphore.Guards q.max_concurrent_assessments SupervisedTask.waits SupervisedTask.runs s.tasks (s._sem q)
  org_gate : ∀ org_id, Semaphore.Guards q.max_concurrent_assessments_per_org
    (SupervisedTask.waits_org q org_id) (SupervisedTask.holds_org q org_id) s.tasks (s._org_sem q org_id)
  registered : ∀ i t, s.tasks[i]? = some t → t.state ≠ .finished → s._running t.key = some i
  noted : ∀ key i, s._running key = some i → ∃ t, s.tasks[i]? = some t ∧ t.key = key
  /-- Only a run comes to the gate of an organization. -/
  queued : ∀ t ∈ s.tasks, t.state = .identifying ∨ t.state = .waiting_org → t.key.org_id q ≠ none

theorem Inv.init (q : Quotas) : Inv q {} where
  gate := Semaphore.guards_init _ _ _
  org_gate _ := Semaphore.guards_init _ _ _
  registered i t ht := by simp at ht
  noted key i h := by cases h
  queued t ht := absurd ht List.not_mem_nil

/-- Nothing is under way under a key that is not live. -/
theorem Inv.finished_of_not_live (h : Inv q s) {key : RunKey} (hlive : s.live key = false)
    (ht : s.tasks[i]? = some t) (hkey : t.key = key) : t.state = .finished := by
  by_contra hopen
  have hentry := h.registered i t ht hopen
  rw [hkey] at hentry
  rw [live, hentry, Option.bind_some, ht] at hlive
  exact hopen (by simpa using hlive)

theorem Inv.launch (h : Inv q s) (key : RunKey) : Inv q (s.launch key) := by
  rw [Supervisor.launch]
  split
  next => exact h
  next hlive =>
    have hlive : s.live key = false := by simpa using hlive
    have hnew : (s.tasks ++ [({ key } : SupervisedTask)])[s.tasks.length]? = some { key } :=
      List.getElem?_concat_length
    have hold : ∀ {j : ℕ} {u : SupervisedTask}, s.tasks[j]? = some u →
        (s.tasks ++ [({ key } : SupervisedTask)])[j]? = some u := fun {j u} hu ↦ by
      obtain ⟨hj, -⟩ := List.getElem?_eq_some_iff.1 hu
      rwa [List.getElem?_append_left hj]
    refine {
      gate := h.gate.append (by simp [SupervisedTask.waits]) (by simp [SupervisedTask.runs])
      org_gate org_id := (h.org_gate org_id).append (by simp [SupervisedTask.waits_org])
        (by simp [SupervisedTask.holds_org, SupervisedState.admitted])
      registered j u hu hopen := ?_
      noted key' j hentry := ?_
      queued u hu hstate := ?_ }
    · by_cases hj : j = s.tasks.length
      · subst hj
        obtain rfl := Option.some.inj (hnew.symm.trans hu)
        exact Function.update_self ..
      · have hlt : j < s.tasks.length := by
          obtain ⟨hlt, -⟩ := List.getElem?_eq_some_iff.1 hu
          rw [List.length_append, List.length_singleton] at hlt
          omega
        rw [List.getElem?_append_left hlt] at hu
        have hkey : u.key ≠ key := fun hkey ↦ hopen (h.finished_of_not_live hlive hu hkey)
        exact (Function.update_of_ne hkey ..).trans (h.registered j u hu hopen)
    · change Function.update s._running key (some s.tasks.length) key' = some j at hentry
      by_cases hkey : key' = key
      · subst hkey
        rw [Function.update_self] at hentry
        exact ⟨_, Option.some.inj hentry ▸ hnew, rfl⟩
      · rw [Function.update_of_ne hkey] at hentry
        obtain ⟨u, hu, hkeyed⟩ := h.noted key' j hentry
        exact ⟨u, hold hu, hkeyed⟩
    · rcases List.mem_append.1 hu with hu | hu
      · exact h.queued u hu hstate
      · rw [List.mem_singleton.1 hu] at hstate
        simp at hstate

/-! #### One task moves on -/

/-- What is left to show when a task gets another state, as long as the registry stays. -/
theorem Inv.setState (h : Inv q s) (ht : s.tasks[i]? = some t) (hopen : t.state ≠ .finished)
    (hstate : state = .identifying ∨ state = .waiting_org → t.key.org_id q ≠ none)
    (htasks : s'.tasks = s.tasks.set i { t with state }) (hrunning : s'._running = s._running)
    (gate : Semaphore.Guards q.max_concurrent_assessments SupervisedTask.waits SupervisedTask.runs
      (s.tasks.set i { t with state }) (s'._sem q))
    (org_gate : ∀ org_id, Semaphore.Guards q.max_concurrent_assessments_per_org
      (SupervisedTask.waits_org q org_id) (SupervisedTask.holds_org q org_id)
      (s.tasks.set i { t with state }) (s'._org_sem q org_id)) : Inv q s' where
  gate := htasks ▸ gate
  org_gate org_id := htasks ▸ org_gate org_id
  registered := by
    rw [htasks, hrunning]
    exact (Puts.set ht _).forall_slots h.registered (fun _ ↦ h.registered i t ht hopen) fun _ _ _ h ↦ h
  noted key j hentry := by
    rw [hrunning] at hentry
    obtain ⟨u, hu, hkey⟩ := h.noted key j hentry
    rw [htasks]
    by_cases hj : j = i
    · subst hj
      obtain rfl := Option.some.inj (ht.symm.trans hu)
      exact ⟨_, (Puts.set ht _).self, hkey⟩
    · exact ⟨u, ((Puts.set ht _).other j hj).trans hu, hkey⟩
  queued u hu := by
    rw [htasks] at hu
    rcases List.mem_or_eq_of_mem_set hu with hu | rfl
    · exact h.queued u hu
    · exact hstate

/-- The gates of the organizations, when the task moves at none of them. -/
theorem Inv.org_gate_keep (h : Inv q s) (ht : s.tasks[i]? = some t) (org_id : ℕ)
    (hwaits : (state == .waiting_org) = (t.state == .waiting_org)) (hadmitted : state.admitted = t.state.admitted) :
    Semaphore.Guards q.max_concurrent_assessments_per_org (SupervisedTask.waits_org q org_id)
      (SupervisedTask.holds_org q org_id) (s.tasks.set i { t with state }) (s._org_sem q org_id) :=
  (h.org_gate org_id).keep ht (congrArg (· && t.key.org_id q == some org_id) hwaits)
    (congrArg (· && t.key.org_id q == some org_id) hadmitted)

/-- The gates of the organizations, when the task moves at that of its own. -/
theorem Inv.org_gate_update (h : Inv q s) (ht : s.tasks[i]? = some t) {own : ℕ}
    (horg : t.key.org_id q = some own) {sem : Semaphore ℕ}
    (hown : Semaphore.Guards q.max_concurrent_assessments_per_org (SupervisedTask.waits_org q own)
      (SupervisedTask.holds_org q own) (s.tasks.set i { t with state }) sem) (org_id : ℕ) :
    Semaphore.Guards q.max_concurrent_assessments_per_org (SupervisedTask.waits_org q org_id)
      (SupervisedTask.holds_org q org_id) (s.tasks.set i { t with state })
      ((s.setOrgSem own sem)._org_sem q org_id) := by
  by_cases heq : org_id = own
  · subst heq
    have hsem : (s.setOrgSem org_id sem)._org_sem q org_id = sem := by simp [_org_sem, setOrgSem]
    rw [hsem]
    exact hown
  · have hsem : (s.setOrgSem own sem)._org_sem q org_id = s._org_sem q org_id := by
      simp [_org_sem, setOrgSem, heq]
    rw [hsem]
    have hother : (t.key.org_id q == some org_id) = false := by
      rw [horg]
      simpa using Ne.symm heq
    exact (h.org_gate org_id).keep ht (by simp [SupervisedTask.waits_org, hother])
      (by simp [SupervisedTask.holds_org, hother])

/-- The global gate, when a task that had nothing to do with it comes to it. -/
theorem Inv.gate_acquire (h : Inv q s) (ht : s.tasks[i]? = some t) (hwaits : t.waits = false)
    (hruns : t.runs = false) :
    Semaphore.Guards q.max_concurrent_assessments SupervisedTask.waits SupervisedTask.runs
      (s.tasks.set i { t with
        state := if ((s._sem q).acquire i).2 then .running else .waiting_global }) ((s._sem q).acquire i).1 := by
  refine h.gate.acquire ht hwaits hruns ?_ ?_
  · cases ((s._sem q).acquire i).2 <;> rfl
  · cases ((s._sem q).acquire i).2 <;> rfl

/-- A task with the slot of its organization has come to the global gate. -/
theorem holds_of_entered (entered : Bool) {org_id : ℕ} (horg : t.key.org_id q = some org_id) :
    ({ t with state := if entered then .running else .waiting_global } : SupervisedTask).waits_org q org_id =
        false ∧
      ({ t with state := if entered then .running else .waiting_global } : SupervisedTask).holds_org q org_id =
        true := by
  cases entered <;> simp [SupervisedTask.waits_org, SupervisedTask.holds_org, SupervisedState.admitted, horg]

theorem not_identifying_of_entered (entered : Bool) :
    ¬((if entered then .running else .waiting_global : SupervisedState) = .identifying ∨
      (if entered then .running else .waiting_global : SupervisedState) = .waiting_org) := by
  cases entered <;> simp

theorem finish_tasks : (s.finish q i t).tasks = s.tasks.set i { t with state := .finished } := by
  rw [Supervisor.finish]
  split <;> rfl

theorem finish_sem : (s.finish q i t)._sem q = (s._sem q).release := by
  rw [Supervisor.finish]
  split <;> rfl

theorem finish_running : (s.finish q i t)._running = Function.update s._running t.key none := by
  rw [Supervisor.finish]
  split <;> rfl

/-- The way out of a task gives back what it has at both gates. -/
theorem Inv.finish (h : Inv q s) (ht : s.tasks[i]? = some t) (hstate : t.state = .running) :
    Inv q (s.finish q i t) where
  gate := by
    rw [finish_tasks, finish_sem]
    exact h.gate.release ht (by rw [SupervisedTask.waits, hstate]; rfl) (by rw [SupervisedTask.runs, hstate]; rfl)
      rfl rfl
  org_gate org_id := by
    rw [finish_tasks]
    cases horg : t.key.org_id q with
    | none =>
      have hsem : (s.finish q i t)._org_sem q org_id = s._org_sem q org_id := by
        simp [Supervisor.finish, horg, _org_sem, Supervisor.setState, setSem]
      rw [hsem]
      exact (h.org_gate org_id).keep ht (by simp [SupervisedTask.waits_org, horg])
        (by simp [SupervisedTask.holds_org, horg])
    | some own =>
      have hsem : (s.finish q i t)._org_sem q org_id =
          (s.setOrgSem own (s._org_sem q own).release)._org_sem q org_id := by
        simp [Supervisor.finish, horg, _org_sem, setOrgSem, Supervisor.setState, setSem]
      rw [hsem]
      refine h.org_gate_update ht horg ?_ org_id
      exact (h.org_gate own).release ht (by simp [SupervisedTask.waits_org, hstate])
        (by simp [SupervisedTask.holds_org, SupervisedState.admitted, hstate, horg])
        (by simp [SupervisedTask.waits_org]) (by simp [SupervisedTask.holds_org, SupervisedState.admitted])
  registered j u hu hopen := by
    rw [finish_tasks] at hu
    by_cases hj : j = i
    · subst hj
      rw [(Puts.set ht _).self] at hu
      rw [← Option.some.inj hu] at hopen
      exact absurd rfl hopen
    · rw [(Puts.set ht _).other j hj] at hu
      have hentry := h.registered j u hu hopen
      -- the registry has one task under a key, and under this one it has another
      have hkey : u.key ≠ t.key := fun hkey ↦ by
        rw [hkey, h.registered i t ht (by simp [hstate])] at hentry
        exact hj (Option.some.inj hentry).symm
      rw [finish_running, Function.update_of_ne hkey]
      exact hentry
  noted key j hentry := by
    rw [finish_running] at hentry
    by_cases hkey : key = t.key
    · rw [hkey, Function.update_self] at hentry
      cases hentry
    · rw [Function.update_of_ne hkey] at hentry
      obtain ⟨u, hu, hkeyed⟩ := h.noted key j hentry
      rw [finish_tasks]
      have hj : j ≠ i := fun hj ↦ by
        rw [hj, ht] at hu
        rw [Option.some.inj hu] at hkey
        exact hkey hkeyed.symm
      exact ⟨u, ((Puts.set ht _).other j hj).trans hu, hkeyed⟩
  queued u hu := by
    rw [finish_tasks] at hu
    rcases List.mem_or_eq_of_mem_set hu with hu | rfl
    · exact h.queued u hu
    · simp

theorem Inv.moves (h : Inv q s) (ht : s.tasks[i]? = some t) (hm : Moves q s i t s') : Inv q s' := by
  cases hm with
  | identify horg hstate =>
    exact h.setState ht (by simp [hstate]) (fun _ ↦ horg) rfl rfl
      (h.gate.keep ht (by simp [SupervisedTask.waits, hstate]) (by simp [SupervisedTask.runs, hstate]))
      fun org_id ↦ h.org_gate_keep ht org_id (by rw [hstate]; rfl) (by rw [hstate]; rfl)
  | missing hstate =>
    exact h.setState ht (by simp [hstate]) (by simp) rfl rfl
      (h.gate.keep ht (by simp [SupervisedTask.waits, hstate]) (by simp [SupervisedTask.runs, hstate]))
      fun org_id ↦ h.org_gate_keep ht org_id (by rw [hstate]; rfl) (by rw [hstate]; rfl)
  | queue horg hstate hfull =>
    refine h.setState ht (by simp [hstate]) (fun _ ↦ by simp [horg]) rfl rfl
      (h.gate.keep ht (by simp [SupervisedTask.waits, hstate]) (by simp [SupervisedTask.runs, hstate]))
      (h.org_gate_update ht horg ?_)
    exact (h.org_gate _).acquire ht (by simp [SupervisedTask.waits_org, hstate])
      (by simp [SupervisedTask.holds_org, SupervisedState.admitted, hstate])
      (by simp [SupervisedTask.waits_org, horg, hfull])
      (by simp [SupervisedTask.holds_org, SupervisedState.admitted, hfull])
  | pass horg hstate hfree =>
    refine h.setState ht (by simp [hstate]) (fun hno ↦ absurd hno (not_identifying_of_entered _)) rfl rfl
      (h.gate_acquire ht (by simp [SupervisedTask.waits, hstate]) (by simp [SupervisedTask.runs, hstate]))
      (h.org_gate_update ht horg ?_)
    exact (h.org_gate _).acquire ht (by simp [SupervisedTask.waits_org, hstate])
      (by simp [SupervisedTask.holds_org, SupervisedState.admitted, hstate])
      ((holds_of_entered _ horg).1.trans (by rw [hfree]; rfl)) ((holds_of_entered _ horg).2.trans hfree.symm)
  | resume horg hstate hresume =>
    refine h.setState ht (by simp [hstate]) (fun hno ↦ absurd hno (not_identifying_of_entered _)) rfl rfl
      (h.gate_acquire ht (by simp [SupervisedTask.waits, hstate]) (by simp [SupervisedTask.runs, hstate]))
      (h.org_gate_update ht horg ?_)
    exact (h.org_gate _).resume ht (by simp [SupervisedTask.holds_org, SupervisedState.admitted, hstate])
      (holds_of_entered _ horg).1 (holds_of_entered _ horg).2 hresume
  | execute horg hstate =>
    exact h.setState ht (by simp [hstate]) (fun hno ↦ absurd hno (not_identifying_of_entered _)) rfl rfl
      (h.gate_acquire ht (by simp [SupervisedTask.waits, hstate]) (by simp [SupervisedTask.runs, hstate]))
      fun org_id ↦ (h.org_gate org_id).keep ht (by simp [SupervisedTask.waits_org, horg])
        (by simp [SupervisedTask.holds_org, horg])
  | run hstate hresume =>
    exact h.setState ht (by simp [hstate]) (by simp) rfl rfl
      (h.gate.resume ht (by simp [SupervisedTask.runs, hstate]) rfl rfl hresume)
      fun org_id ↦ h.org_gate_keep ht org_id (by rw [hstate]; rfl) (by rw [hstate]; rfl)
  | finish hstate => exact h.finish ht hstate

/-- **Every step keeps the invariant.** -/
theorem Inv.step (h : Inv q s) (hs : Supervisor.step q s e = some s') : Inv q s' := by
  obtain ⟨-, key, rfl⟩ | ⟨-, i, t, ht, hm⟩ := step_cases hs
  · exact h.launch key
  · exact h.moves ht hm

theorem inv_of_run {es : List SupervisorEvent} (h : Machine.run (Supervisor.step q) {} es = some s) : Inv q s :=
  Machine.inv_of_run (fun hI hs ↦ hI.step hs) h (.init q)

/-! ### What is left to do -/

end Supervisor

/-- How many steps a task has before it, at most. -/
def SupervisedState.stage : SupervisedState → ℕ
  | created => 5
  | identifying => 4
  | waiting_org => 3
  | waiting_global => 2
  | running => 1
  | finished => 0

namespace Supervisor

variable {q : Quotas} {s s' : Supervisor} {i : ℕ} {t : SupervisedTask} {state : SupervisedState}
variable {e : SupervisorEvent}

/-- How many steps the tasks have before them, at most. -/
def remaining (s : Supervisor) : ℕ := (s.tasks.map (·.state.stage)).sum

theorem stage_of_entered (entered : Bool) :
    (if entered then .running else .waiting_global : SupervisedState).stage < 3 := by
  cases entered <;> decide

/-- A move puts its task forward. -/
theorem Moves.forward (hm : Moves q s i t s') :
    ∃ state : SupervisedState, s'.tasks = s.tasks.set i { t with state } ∧ state.stage < t.state.stage := by
  cases hm with
  | identify _ hstate | missing hstate | queue _ hstate _ | run hstate _ =>
    exact ⟨_, rfl, by rw [hstate]; decide⟩
  | pass _ hstate _ | resume _ hstate _ | execute _ hstate =>
    refine ⟨_, rfl, Nat.lt_of_lt_of_le (stage_of_entered _) ?_⟩
    rw [hstate]
    decide
  | finish hstate => exact ⟨_, finish_tasks, by rw [hstate]; decide⟩

/-- **Every move brings the tasks forward**, and none is lost. -/
theorem advance_of_step (hd : e.launches = false) (hs : s.step q e = some s') :
    s'.remaining < s.remaining ∧ s'.tasks.map (·.key) = s.tasks.map (·.key) := by
  obtain ⟨hl, -⟩ | ⟨-, i, t, ht, hm⟩ := step_cases hs
  · rw [hd] at hl
    cases hl
  · obtain ⟨state, htasks, hless⟩ := hm.forward
    have hsum : s'.remaining + t.state.stage = s.remaining + state.stage := by
      rw [remaining, htasks]
      exact sum_map_set_add ht { t with state } (·.state.stage)
    refine ⟨by omega, ?_⟩
    rw [htasks]
    exact map_set_of_eq ht rfl

/-- Who has something to do at the global gate can be moved on, or somebody else there can. -/
theorem enabled_of_admitted (h : Inv q s) (hglobal : 0 < q.max_concurrent_assessments)
    (ht : s.tasks[i]? = some t) (hstate : t.state = .waiting_global ∨ t.state = .running) :
    ∃ e : SupervisorEvent, e.launches = false ∧ (s.step q e).isSome := by
  have hrunning : ∀ {j : ℕ} {u : SupervisedTask}, s.tasks[j]? = some u → u.state = .running →
      ∃ e : SupervisorEvent, e.launches = false ∧ (s.step q e).isSome := fun {j u} hu hst ↦
    ⟨.ended j, rfl, by simp [Supervisor.step, hu, hst]⟩
  rcases hstate with hstate | hstate
  · obtain ⟨j, u, hu, hwaits, hwoken⟩ | ⟨j, u, hu, hruns⟩ :=
      h.gate.progress hglobal ht (by simp [SupervisedTask.waits, hstate])
    · have hst : u.state = .waiting_global := beq_iff_eq.1 hwaits
      exact ⟨.resume_global j, rfl, by simp [Supervisor.step, hu, hst, Semaphore.resume, hwoken]⟩
    · exact hrunning hu (beq_iff_eq.1 hruns)
  · exact hrunning ht hstate

/-- **No deadlock.** While a task is not done, some task can be moved on. -/
theorem enabled_of_open (h : Inv q s) (hglobal : 0 < q.max_concurrent_assessments)
    (horgs : 0 < q.max_concurrent_assessments_per_org) (ht : s.tasks[i]? = some t)
    (hopen : t.state ≠ .finished) : ∃ e : SupervisorEvent, e.launches = false ∧ (s.step q e).isSome := by
  have hqueued := h.queued t (List.mem_of_getElem? ht)
  cases hstate : t.state with
  | finished => exact absurd hstate hopen
  | created =>
    refine ⟨.begin i, rfl, ?_⟩
    cases horg : t.key.org_id q <;> simp [Supervisor.step, ht, hstate, horg]
  | identifying =>
    obtain ⟨org_id, horg⟩ := Option.ne_none_iff_exists'.1 (hqueued (.inl hstate))
    exact ⟨.identified i true, rfl, by simp [Supervisor.step, ht, hstate, horg]⟩
  | waiting_org =>
    obtain ⟨org_id, horg⟩ := Option.ne_none_iff_exists'.1 (hqueued (.inr hstate))
    obtain ⟨j, u, hu, hwaits, hwoken⟩ | ⟨j, u, hu, hholds⟩ :=
      (h.org_gate org_id).progress horgs ht (by simp [SupervisedTask.waits_org, hstate, horg])
    · obtain ⟨hst, horg'⟩ : u.state = .waiting_org ∧ u.key.org_id q = some org_id := by
        simpa [SupervisedTask.waits_org] using hwaits
      exact ⟨.resume_org j, rfl, by simp [Supervisor.step, hu, hst, horg', Semaphore.resume, hwoken]⟩
    · -- who has a slot of the organization is at the global gate
      have hadmitted : u.state.admitted = true := (Bool.and_eq_true_iff.1 hholds).1
      refine enabled_of_admitted h hglobal hu ?_
      cases hst : u.state <;> simp [SupervisedState.admitted, hst] at hadmitted ⊢
  | waiting_global => exact enabled_of_admitted h hglobal ht (.inl hstate)
  | running => exact enabled_of_admitted h hglobal ht (.inr hstate)

/-- Nothing is left to do once every task is done. -/
theorem stuck_of_finished (hdone : ∀ t ∈ s.tasks, t.state = .finished) (hd : e.launches = false) :
    s.step q e = none := by
  have hzero : s.remaining = 0 := List.sum_eq_zero fun n hn ↦ by
    obtain ⟨t, ht, rfl⟩ := List.mem_map.1 hn
    rw [hdone t ht]
    rfl
  refine Option.eq_none_iff_forall_ne_some.2 fun s' hs ↦ ?_
  have := (advance_of_step hd hs).1
  omega

theorem remaining_le (s : Supervisor) : s.remaining ≤ 5 * s.tasks.countP (·.state != .finished) := by
  rw [remaining]
  generalize s.tasks = tasks
  induction tasks with
  | nil => exact Nat.le_refl 0
  | cons t tasks ih =>
    have ht : t.state.stage ≤ 5 * if t.state != .finished then 1 else 0 := by
      cases t.state <;> decide
    rw [List.map_cons, List.sum_cons, List.countP_cons]
    omega

/-! ### Runs -/

/-- The registry tells which assessments have a run under way. -/
theorem Inv.is_running_iff (h : Inv q s) (assessment_id : ℕ) :
    s.is_running assessment_id = true ↔
      ∃ t ∈ s.tasks, t.key = .assessment assessment_id ∧ t.state ≠ .finished := by
  constructor
  · intro hlive
    rw [is_running, live] at hlive
    obtain ⟨t, hentry, hopen⟩ := (Option.any_eq_true _ _).1 hlive
    obtain ⟨i, hi, ht⟩ := Option.bind_eq_some_iff.1 hentry
    obtain ⟨u, hu, hkey⟩ := h.noted _ _ hi
    obtain rfl := Option.some.inj (ht.symm.trans hu)
    exact ⟨t, List.mem_of_getElem? ht, hkey, by simpa using hopen⟩
  · rintro ⟨t, ht, hkey, hopen⟩
    obtain ⟨i, hi⟩ := List.mem_iff_getElem?.1 ht
    by_contra hlive
    exact hopen (h.finished_of_not_live (Bool.eq_false_iff.2 hlive) hi hkey)

/-- **The quotas, and one task under a key.** In every run of requests and tasks, at most
`max_concurrent_assessments` runs and executions are worked on at once, and of each organization at most
`max_concurrent_assessments_per_org` runs are past its gate; where somebody waits that nobody has woken, and
no woken task is about to go on, they are exactly as many. Two tasks under one key are never both under way,
and `is_running` says whether an assessment has one. -/
theorem quotas_of_run {es : List SupervisorEvent} (h : Machine.run (Supervisor.step q) {} es = some s) :
    (s.running ≤ q.max_concurrent_assessments ∧
      (0 < (s._sem q).pending → (s._sem q).woken = 0 → s.running = q.max_concurrent_assessments)) ∧
    (∀ org_id, s.admitted q org_id ≤ q.max_concurrent_assessments_per_org ∧
      (0 < (s._org_sem q org_id).pending → (s._org_sem q org_id).woken = 0 →
        s.admitted q org_id = q.max_concurrent_assessments_per_org)) ∧
    (∀ (i j : ℕ) (t u : SupervisedTask), s.tasks[i]? = some t → s.tasks[j]? = some u → t.key = u.key →
      t.state ≠ .finished → u.state ≠ .finished → i = j) ∧
    ∀ assessment_id, s.is_running assessment_id = true ↔
      ∃ t ∈ s.tasks, t.key = .assessment assessment_id ∧ t.state ≠ .finished := by
  have hI := inv_of_run h
  refine ⟨⟨hI.gate.countP_le, hI.gate.balanced.saturated⟩,
    fun org_id ↦ ⟨(hI.org_gate org_id).countP_le, (hI.org_gate org_id).balanced.saturated⟩,
    fun i j t u ht hu hkey htopen huopen ↦ ?_, hI.is_running_iff⟩
  have hentry := hI.registered i t ht htopen
  rw [hkey, hI.registered j u hu huopen] at hentry
  exact (Option.some.inj hentry).symm

/-- **Every task comes to its end.** With a slot for each gate, after any run and without further requests,
the tasks under way take at most five steps each in any interleaving; and when none of them has a step left,
all of them are done, none was lost, and no assessment is running. -/
theorem drains_of_run {es es' : List SupervisorEvent} (hglobal : 0 < q.max_concurrent_assessments)
    (horgs : 0 < q.max_concurrent_assessments_per_org)
    (h : Machine.run (Supervisor.step q) {} es = some s) (h' : Machine.run (Supervisor.step q) s es' = some s')
    (hd : ∀ e ∈ es', e.launches = false) :
    es'.length ≤ 5 * s.tasks.countP (·.state != .finished) ∧
      ((∀ e, e.launches = false → s'.step q e = none) →
        s'.tasks.map (·.key) = s.tasks.map (·.key) ∧ (∀ t ∈ s'.tasks, t.state = .finished) ∧
          ∀ assessment_id, s'.is_running assessment_id = false) := by
  have hI' : Inv q s' := Machine.inv_of_run (fun hI hs ↦ hI.step hs) h' (inv_of_run h)
  have hlength : es'.length + s'.remaining ≤ s.remaining :=
    Machine.length_add_rank_le (fun hd hs ↦ (advance_of_step hd hs).1) h' hd
  have hbound := s.remaining_le
  refine ⟨by omega, fun hstuck ↦ ?_⟩
  have hdone : ∀ t ∈ s'.tasks, t.state = .finished := by
    intro t ht
    by_contra hopen
    obtain ⟨i, hi⟩ := List.mem_iff_getElem?.1 ht
    obtain ⟨e, he, hsome⟩ := enabled_of_open hI' hglobal horgs hi hopen
    rw [hstuck e he] at hsome
    cases hsome
  refine ⟨?_, hdone, fun assessment_id ↦ ?_⟩
  · exact Machine.inv_of_run_where (I := fun u ↦ u.tasks.map (·.key) = s.tasks.map (·.key))
      (fun hd hkeys hs ↦ (advance_of_step hd hs).2.trans hkeys) h' hd rfl
  · rw [Bool.eq_false_iff, ne_eq, hI'.is_running_iff]
    rintro ⟨t, ht, -, hopen⟩
    exact hopen (hdone t ht)

end Supervisor

/-- One global slot, and one for each organization. -/
def narrowQuotas : Quotas where
  max_concurrent_assessments := 1
  max_concurrent_assessments_per_org := 1
  org_id assessment_id := assessment_id / 10

/-- Two runs of one organization and one of another: the second run waits at the gate of its organization,
the third at the global one; and a second request for the first run is ignored. -/
def crowdedRun : List SupervisorEvent := [
  .start_assessment 1, .start_assessment 2, .start_assessment 11, .begin 0, .begin 1, .begin 2,
  .identified 0 true, .identified 1 true, .identified 2 true, .start_assessment 1]

def crowdedEnds : List SupervisorEvent :=
  [.ended 0, .resume_global 2, .resume_org 1, .ended 2, .resume_global 1, .ended 1]

theorem quotas_of_run_crowded : ∃ s, Machine.run (Supervisor.step narrowQuotas) {} crowdedRun = some s ∧
    s.tasks.length = 3 ∧ (s._sem narrowQuotas).pending = 1 ∧ (s._org_sem narrowQuotas 0).pending = 1 ∧
    (s.running ≤ 1 ∧ (0 < (s._sem narrowQuotas).pending → (s._sem narrowQuotas).woken = 0 → s.running = 1)) ∧
    (∀ org_id, s.admitted narrowQuotas org_id ≤ 1 ∧
      (0 < (s._org_sem narrowQuotas org_id).pending → (s._org_sem narrowQuotas org_id).woken = 0 →
        s.admitted narrowQuotas org_id = 1)) ∧
    (∀ (i j : ℕ) (t u : SupervisedTask), s.tasks[i]? = some t → s.tasks[j]? = some u → t.key = u.key →
      t.state ≠ .finished → u.state ≠ .finished → i = j) ∧
    ∀ assessment_id, s.is_running assessment_id = true ↔
      ∃ t ∈ s.tasks, t.key = .assessment assessment_id ∧ t.state ≠ .finished := by
  obtain ⟨s, h, hlength, hpending, horg⟩ : ∃ s,
      Machine.run (Supervisor.step narrowQuotas) {} crowdedRun = some s ∧ s.tasks.length = 3 ∧
        (s._sem narrowQuotas).pending = 1 ∧ (s._org_sem narrowQuotas 0).pending = 1 := by
    decide +kernel
  exact ⟨s, h, hlength, hpending, horg, Supervisor.quotas_of_run h⟩

theorem drains_of_run_crowded : ∃ s s', Machine.run (Supervisor.step narrowQuotas) {} crowdedRun = some s ∧
    Machine.run (Supervisor.step narrowQuotas) s crowdedEnds = some s' ∧
    crowdedEnds.length ≤ 5 * s.tasks.countP (·.state != .finished) ∧
    s'.tasks.map (·.key) = s.tasks.map (·.key) ∧ (∀ t ∈ s'.tasks, t.state = .finished) ∧
      ∀ assessment_id, s'.is_running assessment_id = false := by
  obtain ⟨s, h, s', h', hdone⟩ : ∃ s, Machine.run (Supervisor.step narrowQuotas) {} crowdedRun = some s ∧
      ∃ s', Machine.run (Supervisor.step narrowQuotas) s crowdedEnds = some s' ∧
        ∀ t ∈ s'.tasks, t.state = .finished := by
    decide +kernel
  obtain ⟨hlength, hdrained⟩ := Supervisor.drains_of_run (by decide) (by decide) h h' (by decide)
  exact ⟨s, s', h, h', hlength, hdrained fun e he ↦ Supervisor.stuck_of_finished hdone he⟩

end Sentrik
