import Sentrik.Orchestration.Moves

/-!
# The surface planning is offered

The graph reads the endpoints to plan for from the database. The inline driver takes what discovery
returns, and discovery returns the rows it has **added**: an endpoint that was there before, ingested
as traffic or left by a run that failed, is a duplicate for discovery and not planned for.

So both drivers plan for the same surface exactly when the inventory was empty before discovery.
-/

namespace Sentrik

namespace Orchestrator

/-- What a driver passes to planning. -/
def planningInput (settings : Settings) (o : Orchestrator) (m : Main) : List Endpoint :=
  if settings.use_langgraph then o.endpoints else m.saved

/-- An incremental run narrows it down further. -/
theorem offered_eq (settings : Settings) (o : Orchestrator) (m : Main) :
    offered settings o m = planEndpoints o.assessment (planningInput settings o m) := rfl

/-! ### What discovery adds -/

/-- The rows discovery adds to an inventory, with ids from the counter. -/
def freshEndpoints (existing : List Endpoint) (nextId : ℕ) : List Endpoint → List Endpoint
  | [] => []
  | e :: found =>
    if existing.any (·.fingerprint == e.fingerprint) then freshEndpoints existing nextId found
    else
      { e with id := nextId } ::
        freshEndpoints (existing ++ [{ e with id := nextId }]) (nextId + 1) found

/-- **The specification of discovery's store.** -/
theorem addEndpoints_spec (o : Orchestrator) (found : List Endpoint) :
    (o.addEndpoints found).1.endpoints = o.endpoints ++ freshEndpoints o.endpoints o.nextId found ∧
      (o.addEndpoints found).2 = freshEndpoints o.endpoints o.nextId found := by
  suffices h : ∀ (found : List Endpoint) (o : Orchestrator) (saved : List Endpoint),
      let r := found.foldl (fun (p : Orchestrator × List Endpoint) e ↦
        if p.1.endpoints.any (·.fingerprint == e.fingerprint) then p
        else
          let e := { e with id := p.1.nextId }
          ({ p.1 with endpoints := p.1.endpoints ++ [e], nextId := p.1.nextId + 1 }, p.2 ++ [e]))
        (o, saved)
      r.1.endpoints = o.endpoints ++ freshEndpoints o.endpoints o.nextId found ∧
        r.2 = saved ++ freshEndpoints o.endpoints o.nextId found from h found o []
  intro found
  induction found with
  | nil => exact fun o saved ↦ ⟨(List.append_nil _).symm, (List.append_nil _).symm⟩
  | cons e found ih =>
    intro o saved
    dsimp only
    rw [List.foldl_cons, freshEndpoints]
    split
    next => exact ih o saved
    next hnew =>
      have h := ih { o with endpoints := o.endpoints ++ [{ e with id := o.nextId }],
                            nextId := o.nextId + 1 } (saved ++ [{ e with id := o.nextId }])
      simpa only [List.append_assoc, List.singleton_append] using h

/-- What is added has a fingerprint that was not there. -/
theorem fingerprint_of_fresh {existing : List Endpoint} {nextId : ℕ} {found : List Endpoint}
    {e : Endpoint} (he : e ∈ freshEndpoints existing nextId found) :
    ∀ e₀ ∈ existing, e₀.fingerprint ≠ e.fingerprint := by
  induction found generalizing existing nextId with
  | nil => cases he
  | cons e₁ found ih =>
    rw [freshEndpoints] at he
    split at he
    next => exact ih he
    next hnew =>
      rcases List.mem_cons.1 he with rfl | he
      · intro e₀ he₀ heq
        exact hnew (List.any_eq_true.2 ⟨e₀, he₀, beq_iff_eq.2 heq⟩)
      · exact fun e₀ he₀ ↦ ih he e₀ (List.mem_append_left _ he₀)

/-- The added rows are the whole inventory exactly when it was empty. -/
theorem fresh_eq_all_iff (existing : List Endpoint) (nextId : ℕ) (found : List Endpoint) :
    (∀ e, e ∈ freshEndpoints existing nextId found ↔
      e ∈ existing ++ freshEndpoints existing nextId found) ↔ existing = [] := by
  constructor
  · intro h
    by_contra hne
    obtain ⟨e, he⟩ := List.exists_mem_of_ne_nil existing hne
    exact fingerprint_of_fresh ((h e).2 (List.mem_append_left _ he)) e he rfl
  · rintro rfl
    exact fun e ↦ Iff.rfl

/-! ### From the start of a run to planning -/

/-- The inventory and its counter are the same. -/
structure SameInventory (o o' : Orchestrator) : Prop where
  endpoints : o'.endpoints = o.endpoints
  nextId : o'.nextId = o.nextId

theorem SameInventory.refl (o : Orchestrator) : SameInventory o o := ⟨rfl, rfl⟩

theorem SameInventory.trans {o o₁ o₂ : Orchestrator} (h : SameInventory o o₁)
    (h' : SameInventory o₁ o₂) : SameInventory o o₂ :=
  ⟨h'.endpoints.trans h.endpoints, h'.nextId.trans h.nextId⟩

section

variable {record : AuthorizationRecord} {settings : Settings} {o o' : Orchestrator} {m : Main}

theorem sameInventory_start (o : Orchestrator) (reset : Bool) :
    SameInventory o (start settings o reset) := by
  have hlaunch : ∀ o : Orchestrator, SameInventory o (start_assessment settings o) := by
    intro o
    rw [start_assessment]
    split <;> exact ⟨rfl, rfl⟩
  rw [start]
  split
  · refine SameInventory.trans ?_ (hlaunch _)
    cases reset <;> exact ⟨rfl, rfl⟩
  · exact .refl o

/-- Entering a phase leaves the inventory alone, and what discovery returned. -/
theorem sameInventory_enter (o : Orchestrator) (m : Main) (n : Node) (now : ℤ) :
    SameInventory o (enter record settings o m n now) ∧
      ∀ m' ∈ (enter record settings o m n now).main, m'.saved = m.saved := by
  unfold enter
  dsimp only
  split
  · exact ⟨⟨rfl, rfl⟩, fun m' hm' ↦ by cases hm'; rfl⟩
  cases n with
  | plan | policy | score | report => exact ⟨⟨rfl, rfl⟩, fun m' hm' ↦ by cases hm'; rfl⟩
  | authorize | discover | execute | validate =>
    dsimp only
    split <;> exact ⟨⟨rfl, rfl⟩, fun m' hm' ↦ by cases hm' <;> rfl⟩

/-- After discovery the task of the run has what discovery added. -/
theorem phase_discovery_spec (o : Orchestrator) (m : Main) (found : List Endpoint) :
    (_phase_discovery settings o m found).endpoints =
        o.endpoints ++ freshEndpoints o.endpoints o.nextId found ∧
      ∀ m' ∈ (_phase_discovery settings o m found).main,
        m'.saved = freshEndpoints o.endpoints o.nextId found := by
  obtain ⟨hendpoints, hsaved⟩ := addEndpoints_spec o found
  unfold _phase_discovery endPhase
  dsimp only
  split
  next =>
    refine ⟨?_, fun m' hm' ↦ ?_⟩
    · rw [← hendpoints, goto, closeMain]
      cases m.client <;> rfl
    · cases hm'
      exact hsaved
  next => exact ⟨hendpoints, fun m' hm' ↦ by cases hm'; exact hsaved⟩

variable {registry : _Registry} [u : UnicodeTables]

/-- A run from its start up to planning, when discovery finds `found`. -/
def toPlanning (reset : Bool) (n₁ n₂ : ℤ) (found : List Endpoint) (n₃ : ℤ) : List EngineEvent :=
  [.start reset, .main (.enter n₁), .main (.enter n₂), .main (.discovered found), .main (.enter n₃)]

theorem enter_of_step {now : ℤ} (h : step registry record settings o (.main (.enter now)) = some o') :
    ∃ m n, o.main = some m ∧ m.pc = .entering n ∧ o' = enter record settings o m n now := by
  obtain ⟨m, main, h⟩ := Option.bind_eq_some_iff.1 h
  simp only [mainStep] at h
  split at h
  next n pc => exact ⟨m, n, main, pc, (Option.some.inj h).symm⟩
  next => cases h

/-- **What a run has when it comes to planning**: the rows that were there and those discovery added, and
of these the second as the result of discovery. -/
theorem surface_of_run {reset : Bool} {n₁ n₂ n₃ : ℤ} {found : List Endpoint}
    (h : Machine.run (step registry record settings) o (toPlanning reset n₁ n₂ found n₃) = some o')
    (main : o'.main = some m) :
    o'.endpoints = o.endpoints ++ freshEndpoints o.endpoints o.nextId found ∧
      m.saved = freshEndpoints o.endpoints o.nextId found := by
  obtain ⟨o₁, h₁, h⟩ := Option.bind_eq_some_iff.1 h
  obtain ⟨o₂, h₂, h⟩ := Option.bind_eq_some_iff.1 h
  obtain ⟨o₃, h₃, h⟩ := Option.bind_eq_some_iff.1 h
  obtain ⟨o₄, h₄, h⟩ := Option.bind_eq_some_iff.1 h
  obtain ⟨o₅, h₅, h⟩ := Option.bind_eq_some_iff.1 h
  obtain rfl := Option.some.inj h
  -- up to discovery the inventory is that of the start
  have hbefore : SameInventory o o₃ := by
    obtain ⟨m₁, node₁, -, -, rfl⟩ := enter_of_step h₂
    obtain ⟨m₂, node₂, -, -, rfl⟩ := enter_of_step h₃
    rw [← Option.some.inj h₁]
    exact ((sameInventory_start o reset).trans (sameInventory_enter _ m₁ node₁ n₁).1).trans
      (sameInventory_enter _ m₂ node₂ n₂).1
  obtain ⟨m₃, -, h₄⟩ := Option.bind_eq_some_iff.1 h₄
  simp only [mainStep] at h₄
  split at h₄
  next pc =>
    obtain ⟨hendpoints, hsaved⟩ := @phase_discovery_spec settings o₃ m₃ found
    rw [hbefore.endpoints, hbefore.nextId] at hendpoints hsaved
    rw [Option.some.inj h₄] at hendpoints hsaved
    obtain ⟨m₄, node₄, main₄, -, rfl⟩ := enter_of_step h₅
    obtain ⟨hafter, hkept⟩ := @sameInventory_enter record settings o₄ m₄ node₄ n₃
    exact ⟨hafter.endpoints.trans hendpoints, (hkept m main).trans (hsaved m₄ main₄)⟩
  next => cases h₄

/-- Both drivers pass the same endpoints to planning, and these are all endpoints of the assessment.
The first pair is the state and the task of the inline driver, the second those of the graph. -/
structure SameSurface (settings : Settings) (o₁ : Orchestrator) (m₁ : Main) (o₂ : Orchestrator)
    (m₂ : Main) : Prop where
  same : ∀ e, e ∈ planningInput { settings with use_langgraph := false } o₁ m₁ ↔
    e ∈ planningInput { settings with use_langgraph := true } o₂ m₂
  inline : ∀ e, e ∈ planningInput { settings with use_langgraph := false } o₁ m₁ ↔ e ∈ o₁.endpoints
  graph : ∀ e, e ∈ planningInput { settings with use_langgraph := true } o₂ m₂ ↔ e ∈ o₂.endpoints

/-- **Both drivers plan for the same surface exactly when the inventory was empty.** -/
theorem sameSurface_iff {reset : Bool} {n₁ n₂ n₃ : ℤ} {found : List Endpoint}
    {o₁ o₂ : Orchestrator} {m₁ m₂ : Main}
    (inline : Machine.run (step registry record { settings with use_langgraph := false }) o
      (toPlanning reset n₁ n₂ found n₃) = some o₁)
    (graph : Machine.run (step registry record { settings with use_langgraph := true }) o
      (toPlanning reset n₁ n₂ found n₃) = some o₂)
    (main₁ : o₁.main = some m₁) (main₂ : o₂.main = some m₂) :
    SameSurface settings o₁ m₁ o₂ m₂ ↔ o.endpoints = [] := by
  obtain ⟨hall₁, hsaved⟩ := surface_of_run inline main₁
  obtain ⟨hall₂, -⟩ := surface_of_run graph main₂
  have hinline : planningInput { settings with use_langgraph := false } o₁ m₁ =
      freshEndpoints o.endpoints o.nextId found := hsaved
  have hgraph : planningInput { settings with use_langgraph := true } o₂ m₂ =
      o.endpoints ++ freshEndpoints o.endpoints o.nextId found := hall₂
  rw [← fresh_eq_all_iff o.endpoints o.nextId found]
  constructor
  · intro h e
    rw [← hgraph, ← hinline]
    exact h.same e
  · intro h
    refine ⟨?_, ?_, fun e ↦ Iff.rfl⟩
    · rw [hinline, hgraph]
      exact h
    · rw [hinline, hall₁]
      exact h

end

end Orchestrator

/-! ### Sample runs -/

section

attribute [local instance] asciiTables

/-- An endpoint traffic was seen for before the run. -/
def ingestedEndpoint : Endpoint :=
  { sampleEndpoint with url := "https://app.example/invoices".toList, fingerprint := "i".toList }

/-- An assessment with this endpoint before its start. -/
def ingestedStart : Orchestrator :=
  ((Orchestrator.created 1 [] false none).addEndpoints [ingestedEndpoint]).1

/-- A run of the sample assessments up to planning. -/
def samplePlanning (use_langgraph : Bool) (o : Orchestrator) : Option Orchestrator :=
  Machine.run (Orchestrator.step builtinRegistry (scanRecord ["security_headers"]) { use_langgraph }) o
    (Orchestrator.toPlanning true 0 0 [sampleEndpoint] 0)

/-- The inline driver does not plan for an endpoint that was ingested before the run; the graph does. -/
theorem ingestedStart_not_sameSurface : ∃ o₁ o₂ m₁ m₂,
    (samplePlanning false ingestedStart = some o₁ ∧ o₁.main = some m₁ ∧ m₁.pc = .inside .plan) ∧
      (samplePlanning true ingestedStart = some o₂ ∧ o₂.main = some m₂ ∧ m₂.pc = .inside .plan) ∧
      ¬Orchestrator.SameSurface {} o₁ m₁ o₂ m₂ := by
  obtain ⟨o₁, h₁, m₁, main₁, pc₁, hmissing⟩ : ∃ o₁, samplePlanning false ingestedStart = some o₁ ∧
      ∃ m₁ ∈ o₁.main, m₁.pc = .inside .plan ∧ { ingestedEndpoint with id := 0 } ∉ m₁.saved := by
    unfold samplePlanning
    decide +kernel
  obtain ⟨o₂, h₂, m₂, main₂, pc₂, hplanned⟩ : ∃ o₂, samplePlanning true ingestedStart = some o₂ ∧
      ∃ m₂ ∈ o₂.main, m₂.pc = .inside .plan ∧ { ingestedEndpoint with id := 0 } ∈ o₂.endpoints := by
    unfold samplePlanning
    decide +kernel
  exact ⟨o₁, o₂, m₁, m₂, ⟨h₁, main₁, pc₁⟩, ⟨h₂, main₂, pc₂⟩, fun h ↦ hmissing ((h.same _).2 hplanned)⟩

/-- With an empty inventory both drivers plan for what discovery found. -/
theorem sameSurface_iff_empty : ∃ o₁ o₂ m₁ m₂,
    (samplePlanning false (.created 1 [] false none) = some o₁ ∧ o₁.main = some m₁) ∧
      (samplePlanning true (.created 1 [] false none) = some o₂ ∧ o₂.main = some m₂) ∧
      m₁.saved.length = 1 ∧ Orchestrator.SameSurface {} o₁ m₁ o₂ m₂ := by
  obtain ⟨o₁, h₁, m₁, main₁, hsaved⟩ : ∃ o₁, samplePlanning false (.created 1 [] false none) = some o₁ ∧
      ∃ m₁ ∈ o₁.main, m₁.saved.length = 1 := by
    unfold samplePlanning
    decide +kernel
  obtain ⟨o₂, h₂, m₂, main₂, -⟩ : ∃ o₂, samplePlanning true (.created 1 [] false none) = some o₂ ∧
      ∃ m₂ ∈ o₂.main, m₂.pc = .inside .plan := by
    unfold samplePlanning
    decide +kernel
  exact ⟨o₁, o₂, m₁, m₂, ⟨h₁, main₁⟩, ⟨h₂, main₂⟩, hsaved,
    (@Orchestrator.sameSurface_iff _ {} _ _ _ _ _ _ _ _ _ _ _ _ h₁ h₂ main₁ main₂).2 rfl⟩

end

end Sentrik
