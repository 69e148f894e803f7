import Sentrik.Orchestration.Custody

/-!
# Frozen declarative checks

Planning, policy, the main pass and every execution of approved steps call `_declaratives`. The first
call freezes what it found in `skill_snapshot`, and a later call rebuilds the checks from there — if the
snapshot is not empty: an empty list is stored as it is, and reads like a snapshot that was never taken.

`readings` lists the calls of a run in order, each with what it returned and what the registry showed at
that moment. `frozen_iff`: all calls return what the first one did exactly when the first one found
something, or the registry never showed anything to a call.
-/

namespace Sentrik

/-- A call of `_declaratives`: what it returned, and what the registry showed. -/
structure ChecksReading where
  returned : List DeclarativeCheck
  visible : List DeclarativeCheck
  deriving DecidableEq, Repr

namespace Orchestrator

/-- The steps that call `_declaratives`. -/
def readsChecks : EngineEvent → Bool
  | .main (.plan ..) | .main .policy | .main .dispatch | .execution _ .dispatch => true
  | _ => false

variable [u : UnicodeTables]

/-- What the registry shows of declarative checks. -/
def visibleChecks (o : Orchestrator) : List DeclarativeCheck :=
  load_declarative_checks o.skills o.assessment.org_id

/-- The call of a step, if it makes one. -/
def reading (o : Orchestrator) (e : EngineEvent) (_ : Orchestrator) : List ChecksReading :=
  if readsChecks e then [⟨o._declaratives, o.visibleChecks⟩] else []

/-! ### One step -/

section

variable {registry : _Registry} {record : AuthorizationRecord} {settings : Settings}
  {o o' : Orchestrator} {e : EngineEvent}

/-- Only a call writes the snapshot. -/
theorem snapshot_of_move (h : Move registry record settings o e o') (hreads : readsChecks e = false) :
    o'.assessment.skill_snapshot = o.assessment.skill_snapshot := by
  cases h with
  | control control => exact control.snapshot
  | planned main pc => cases hreads
  | judged main pc => cases hreads
  | polled main pc =>
    rw [_await_step_approvals]
    split <;> rfl
  | takes main pc => rfl
  | dispatched main pc agents => cases hreads
  | settled task state control => exact control.snapshot
  | replanned main pc goes order agents => rfl
  | began execution =>
    rw [execute_approved_steps]
    split_ifs <;> rfl
  | executed execution pc agents => cases hreads
  | invoked task control => exact control.snapshot
  | approved held control => exact control.snapshot
  | denied held control => exact control.snapshot
  | cancelled cancels control => exact control.snapshot
  | cleared control => exact control.snapshot

/-- A call leaves the snapshot as `freeze` does. -/
theorem snapshot_of_reads (h : step registry record settings o e = some o')
    (hreads : readsChecks e = true) :
    o'.assessment.skill_snapshot = o.freeze.assessment.skill_snapshot := by
  cases e with
  | main e =>
    obtain ⟨m, -, hstep⟩ := Option.bind_eq_some_iff.1 h
    cases e with
    | plan multi strategy order =>
      rw [mainStep] at hstep
      split at hstep
      · obtain rfl := Option.some.inj hstep
        rfl
      · cases hstep
    | policy =>
      rw [mainStep] at hstep
      split at hstep
      · obtain rfl := Option.some.inj hstep
        have hjudged : (judgeAll registry record settings o (underReview settings o m)).freeze.assessment =
            o.freeze.assessment := by
          rw [freeze, freeze]
          show (if o.assessment.skill_snapshot ≠ [] then _ else _ : Orchestrator).assessment = _
          split <;> rfl
        rw [← hjudged, _phase_policy]
        dsimp only
        split_ifs <;> rfl
      · cases hstep
    | dispatch =>
      rw [mainStep] at hstep
      split at hstep
      · rw [dispatch] at hstep
        obtain ⟨tasks, -, rfl⟩ := Option.map_eq_some_iff.1 hstep
        rfl
      · cases hstep
    | _ => cases hreads
  | execution j e =>
    obtain ⟨x, -, hstep⟩ := Option.bind_eq_some_iff.1 h
    cases e with
    | dispatch =>
      rw [executionStep] at hstep
      split at hstep
      · rw [executionDispatch] at hstep
        obtain ⟨tasks, -, rfl⟩ := Option.map_eq_some_iff.1 hstep
        rfl
      · cases hstep
    | _ => cases hreads
  | _ => cases hreads

theorem freeze_snapshot_nil (h : o.assessment.skill_snapshot = []) :
    o.freeze.assessment.skill_snapshot = snapshot_specs o.visibleChecks := by
  have hread : o._declaratives = o.visibleChecks := by
    rw [_declaratives, if_neg (not_not.2 h), visibleChecks]
  rw [freeze, if_neg (not_not.2 h), hread]

end

/-! ### Runs -/

/-- The snapshot, and the calls so far: none yet; or none that the registry showed anything to; or the
first that it showed something to has been frozen, and the calls after it returned that. -/
inductive Froze (o : Orchestrator) : List ChecksReading → Prop
  | empty {calls : List ChecksReading} (snapshot : o.assessment.skill_snapshot = [])
    (none : ∀ c ∈ calls, c.returned = [] ∧ c.visible = []) : Froze o calls
  | taken {before after : List ChecksReading} {c : ChecksReading}
    (none : ∀ c ∈ before, c.returned = [] ∧ c.visible = []) (found : c.visible ≠ [])
    (returned : c.returned = c.visible) (later : ∀ c' ∈ after, c'.returned = c.visible)
    (snapshot : o.assessment.skill_snapshot = snapshot_specs c.visible) (built : Built c.visible) :
    Froze o (before ++ c :: after)

variable {registry : _Registry} {record : AuthorizationRecord} {settings : Settings}
  {o o' : Orchestrator} {e : EngineEvent} {calls : List ChecksReading}

/-- **One step.** -/
theorem Froze.step (h : Froze o calls) (hs : step registry record settings o e = some o') :
    Froze o' (calls ++ reading o e o') := by
  rw [reading]
  cases hreads : readsChecks e with
  | false =>
    have hsnapshot := snapshot_of_move (move_of_step hs) hreads
    rw [if_neg (by decide), List.append_nil]
    cases h with
    | empty snapshot none => exact .empty (hsnapshot.trans snapshot) none
    | taken none found returned later snapshot built =>
      exact .taken none found returned later (hsnapshot.trans snapshot) built
  | true =>
    have hsnapshot := snapshot_of_reads hs hreads
    rw [if_pos rfl]
    cases h with
    | empty snapshot none =>
      have hread : o._declaratives = o.visibleChecks := by
        rw [_declaratives, if_neg (not_not.2 snapshot), visibleChecks]
      rw [freeze_snapshot_nil snapshot] at hsnapshot
      by_cases hnil : o.visibleChecks = []
      · refine .empty (by rw [hsnapshot, hnil]; rfl) fun c hc ↦ ?_
        rcases List.mem_append.1 hc with hc | hc
        · exact none c hc
        · rw [List.mem_singleton.1 hc]
          exact ⟨hread.trans hnil, hnil⟩
      · exact .taken none hnil hread (fun _ hc ↦ absurd hc List.not_mem_nil) hsnapshot
          (built_load_declarative_checks _ _)
    | @taken before after c none found returned later snapshot built =>
      have hne : o.assessment.skill_snapshot ≠ [] := by
        rw [snapshot, snapshot_specs]
        exact fun h ↦ found (List.map_eq_nil_iff.1 h)
      have hread : o._declaratives = c.visible := by
        rw [_declaratives, if_pos hne, snapshot, checks_from_snapshot_snapshot_specs built]
      rw [freeze_of_ne_nil hne] at hsnapshot
      rw [List.append_assoc, List.cons_append]
      refine .taken none found returned (fun c' hc' ↦ ?_) (hsnapshot.trans snapshot) built
      rcases List.mem_append.1 hc' with hc' | hc'
      · exact later c' hc'
      · rw [List.mem_singleton.1 hc']
        exact hread

variable (registry record settings) in
/-- The calls of a run, in order. -/
def readings (o : Orchestrator) (es : List EngineEvent) : List ChecksReading :=
  Machine.trace (step registry record settings) reading o es

theorem Froze.run {org_id : ℕ} {requested : List String} {incremental : Bool}
    {prev : Option (List Text)} {es : List EngineEvent}
    (h : Machine.run (Orchestrator.step registry record settings)
      (created org_id requested incremental prev) es = some o) :
    Froze o (readings registry record settings (created org_id requested incremental prev) es) := by
  refine Machine.inv_of_trace_along (C := fun _ _ ↦ True) (fun hI _ hs ↦ hI.step hs)
    (Machine.along_of_forall (fun _ _ ↦ trivial) _ _) h ?_
  exact .empty rfl fun _ hc ↦ absurd hc List.not_mem_nil

/-- **Frozen checks.** In every run, with any changes of the registry between its phases and after its
end, all calls return what the first one returned exactly when the registry showed something to the first
one, or nothing to any. -/
theorem frozen_iff {org_id : ℕ} {requested : List String} {incremental : Bool}
    {prev : Option (List Text)} {es : List EngineEvent} {first : ChecksReading}
    {rest : List ChecksReading}
    (h : Machine.run (step registry record settings) (created org_id requested incremental prev) es =
      some o)
    (hcalls : readings registry record settings (created org_id requested incremental prev) es =
      first :: rest) :
    (∀ c ∈ rest, c.returned = first.returned) ↔
      first.visible ≠ [] ∨ ∀ c ∈ first :: rest, c.visible = [] := by
  have hfroze := Froze.run h
  rw [hcalls] at hfroze
  generalize hall : first :: rest = calls at hfroze
  cases hfroze with
  | empty snapshot none =>
    subst hall
    refine iff_of_true (fun c hc ↦ ?_) (Or.inr fun c hc ↦ (none c hc).2)
    rw [(none c (List.mem_cons_of_mem _ hc)).1, (none first List.mem_cons_self).1]
  | @taken before after c none found returned later snapshot built =>
    cases before with
    | nil =>
      obtain ⟨rfl, rfl⟩ := List.cons.inj hall
      refine iff_of_true (fun c' hc' ↦ ?_) (Or.inl found)
      rw [later c' hc', returned]
    | cons b before =>
      obtain ⟨rfl, rfl⟩ := List.cons.inj hall
      have hc : c ∈ before ++ c :: after := List.mem_append_right _ List.mem_cons_self
      refine iff_of_false (fun hsame ↦ ?_) ?_
      · have heq := hsame c hc
        rw [(none first List.mem_cons_self).1, returned] at heq
        exact found heq
      · rintro (hfirst | hnone)
        · exact hfirst (none first List.mem_cons_self).2
        · exact found (hnone c (List.mem_cons_of_mem _ hc))

end Orchestrator

/-! ### A registration between planning and policy -/

section

attribute [local instance] asciiTables

def lateSkill : AgentSkill where
  name := "cors.reflect-origin"
  check_class := "cors"
  manifest := { detector := some "header_reflects" }

/-- A run from planning to policy, with the registry as it is before, and as it is in between. -/
def planThenPolicy (before between : List AgentSkill) : List EngineEvent := [
  .register before, .start true, .main (.enter 0), .main (.enter 0),
  .main (.discovered [sampleEndpoint]), .main (.enter 0), .main (.plan false "balanced" none),
  .register between, .main (.enter 0), .main .policy]

/-- Where such a run ends. -/
def planThenPolicyRun (before between : List AgentSkill) : Option Orchestrator :=
  Machine.run (Orchestrator.step builtinRegistry (scanRecord ["cors"]) {}) (.created 1 [] false none)
    (planThenPolicy before between)

/-- Its calls. -/
def planThenPolicyReadings (before between : List AgentSkill) : List ChecksReading :=
  Orchestrator.readings builtinRegistry (scanRecord ["cors"]) {} (.created 1 [] false none)
    (planThenPolicy before between)

def lateCheck : DeclarativeCheck := .ofManifest (_row_spec "cors.reflect-origin" "1.0.0" "cors"
  { detector := some "header_reflects" })

theorem readings_late : (planThenPolicyRun [] [lateSkill]).isSome = true ∧
    planThenPolicyReadings [] [lateSkill] = [⟨[], []⟩, ⟨[lateCheck], [lateCheck]⟩] := by
  decide +kernel

theorem readings_early : (planThenPolicyRun [lateSkill] []).isSome = true ∧
    planThenPolicyReadings [lateSkill] [] = [⟨[lateCheck], [lateCheck]⟩, ⟨[lateCheck], []⟩] := by
  decide +kernel

/-- A skill registered after a planning that found none is in the list policy works with. -/
theorem lateSkill_not_frozen :
    ¬∀ (es : List EngineEvent) (o : Orchestrator) (first : ChecksReading) (rest : List ChecksReading),
      Machine.run (Orchestrator.step builtinRegistry (scanRecord ["cors"]) {})
          (.created 1 [] false none) es = some o →
        Orchestrator.readings builtinRegistry (scanRecord ["cors"]) {} (.created 1 [] false none) es =
            first :: rest →
          ∀ c ∈ rest, c.returned = first.returned := by
  intro h
  obtain ⟨hrun, hreadings⟩ := readings_late
  obtain ⟨o, ho⟩ := Option.isSome_iff_exists.1 hrun
  have heq := h _ o _ _ ho hreadings _ List.mem_cons_self
  cases heq

theorem frozen_iff_early :
    ∃ o, planThenPolicyRun [lateSkill] [] = some o ∧
      ((∀ c ∈ [(⟨[lateCheck], []⟩ : ChecksReading)], c.returned = [lateCheck]) ↔
        [lateCheck] ≠ [] ∨
          ∀ c ∈ [(⟨[lateCheck], [lateCheck]⟩ : ChecksReading), ⟨[lateCheck], []⟩], c.visible = []) := by
  obtain ⟨hrun, hreadings⟩ := readings_early
  obtain ⟨o, ho⟩ := Option.isSome_iff_exists.1 hrun
  exact ⟨o, ho, Orchestrator.frozen_iff ho hreadings⟩

end

end Sentrik
