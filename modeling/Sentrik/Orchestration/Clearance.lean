import Sentrik.Orchestration.Moves

/-!
# Clearance: what a check needs to run

A call of `check.run` is reached through planning, policy, operators, the wait, the two dispatches, the
retries and replanning. What each of these contributes to a property of calls is the same for every
property of a certain form, so the argument is made once.

A **clearance** says with which recorded approvals a check may run for a step, and which classes
steps may have. `Inv` is the invariant it induces on the orchestrator, and `Respects` the side
condition on steps: planning and replanning, where checks come from, must plan for nothing that policy
would let through uncleared. `clear_of_respects` is the result: in every run whose steps respect the
clearance, every call is cleared and every step is wanted.

## Why a step resolves the same way later

The checks of a step are resolved again at every use. `DeclsOf` are the lists of declarative checks a
state may still use: one list once the snapshot is frozen, any list before. A step that is planned
while nothing is frozen is planned for a built-in check, whose name resolves the same way for every
list.
-/

namespace Sentrik

/-- Statuses of steps that may have been executed, or may be. -/
def StepStatus.released : StepStatus → Bool
  | .approved | .done | .errored | .skipped => true
  | .planned | .denied | .awaiting_approval => false

/-- What a check needs to run. -/
structure Clearance where
  /-- The check may run for the step with this id, given the recorded approvals. -/
  clear : List ℕ → ℕ → Check → Prop
  /-- More approvals clear more. -/
  mono : ∀ {A B : List ℕ} {id : ℕ} {c : Check}, A ⊆ B → clear A id c → clear B id c
  /-- Steps may have this class. -/
  wanted : String → Prop

namespace Orchestrator

variable (registry : _Registry) (record : AuthorizationRecord) (settings : Settings)
variable [u : UnicodeTables]

/-- The lists of declarative checks a state may still use. -/
def DeclsOf (o : Orchestrator) (declaratives : List DeclarativeCheck) : Prop :=
  o.assessment.skill_snapshot = [] ∨
    declaratives = checks_from_snapshot o.assessment.skill_snapshot

/-- No step with this id is before or outside execution, now or later. -/
def Released (o : Orchestrator) (id : ℕ) : Prop :=
  id < o.nextId ∧ ∀ r ∈ o.steps, r.id = id → r.status.released = true

variable (K : Clearance)

/-- Whatever the step resolves to is cleared by the approvals `A`. -/
def Cleared (o : Orchestrator) (A : List ℕ) (r : PlanStep) : Prop :=
  ∀ declaratives, o.DeclsOf declaratives → ∀ c,
    _resolve_check registry r.check_name r.check_class declaratives = some c → K.clear A r.id c

/-- A check is cleared for a step that is released, on the endpoint of the step. -/
def ClearedJob (o : Orchestrator) (step : PlanStep) (endpoint : EndpointView) (check : Check) : Prop :=
  K.clear o.approvals step.id check ∧ o.Released step.id ∧ endpoint.id = step.endpoint_id

/-- A check that policy permits for a step of the given class is cleared: at once where the gate would
not hold it, and by the approval of its step in any case. -/
def Lets (check_class : String) (id : ℕ) (c : Check) : Prop :=
  (policyDecision (_make_guard record settings) check_class c).allowed = true →
    ((settings.step_approval_required = true → _step_needs_approval c = false) → K.clear [] id c) ∧
      K.clear [id] id c

/-- Policy lets nothing uncleared through for the step. -/
def Sound (o : Orchestrator) (r : PlanStep) : Prop :=
  ∀ declaratives, o.DeclsOf declaratives → ∀ c,
    _resolve_check registry r.check_name r.check_class declaratives = some c →
      Lets record settings K r.check_class r.id c

/-- **The invariant** of a clearance. -/
structure Inv (o : Orchestrator) : Prop where
  nodup : (o.steps.map (·.id)).Nodup
  fresh : ∀ r ∈ o.steps, r.id < o.nextId
  stable : o.assessment.skill_snapshot = [] → ∀ r ∈ o.steps, ∀ declaratives,
    _resolve_check registry r.check_name r.check_class declaratives =
      _resolve_check registry r.check_name r.check_class []
  wanted : ∀ r ∈ o.steps, K.wanted r.check_class
  sound : ∀ r ∈ o.steps, Sound registry record settings K o r
  held : ∀ r ∈ o.steps, r.status = .awaiting_approval → Cleared registry K o [r.id] r
  cleared : ∀ r ∈ o.steps, r.status.released = true → Cleared registry K o o.approvals r
  copies : ∀ r ∈ o.copies, Cleared registry K o o.approvals r ∧ o.Released r.id
  awaited : ∀ id ∈ o.awaited, o.Released id
  review : ∀ r ∈ o.steps, r.id ∈ o.review → r.status = .planned
  tasks : ∀ t ∈ o.tasks, ClearedJob K o t.step t.endpoint t.check
  invocations : ∀ v ∈ o.invocations, ClearedJob K o v.step v.endpoint v.check

variable {registry record settings K} {o o' : Orchestrator}

/-! ### Frozen declarative checks -/

theorem declsOf_declaratives (o : Orchestrator) : o.DeclsOf o._declaratives := by
  unfold DeclsOf _declaratives
  by_cases h : o.assessment.skill_snapshot = []
  · exact Or.inl h
  · rw [if_pos h]
    exact Or.inr rfl

theorem DeclsOf.of_frozen {declaratives : List DeclarativeCheck} (h : o'.DeclsOf declaratives)
    (frozen : o.assessment.skill_snapshot ≠ [] →
      o'.assessment.skill_snapshot = o.assessment.skill_snapshot) : o.DeclsOf declaratives := by
  by_cases hnil : o.assessment.skill_snapshot = []
  · exact Or.inl hnil
  · rw [DeclsOf, frozen hnil] at h
    exact h

theorem freeze_of_ne_nil (h : o.assessment.skill_snapshot ≠ []) : o.freeze = o := by
  rw [freeze, if_pos h]

theorem built_declaratives (o : Orchestrator) : Built o._declaratives := by
  rw [_declaratives]
  split
  · exact built_filterMap _
  · exact built_load_declarative_checks _ _

/-- After the first reading the list in use is the one that was read, or there is none yet. -/
theorem DeclsOf.freeze {declaratives : List DeclarativeCheck} (h : o.freeze.DeclsOf declaratives) :
    declaratives = o._declaratives ∨
      o._declaratives = [] ∧ o.freeze.assessment.skill_snapshot = [] := by
  by_cases hnil : o.assessment.skill_snapshot = []
  · have hfreeze : o.freeze.assessment.skill_snapshot = snapshot_specs o._declaratives := by
      rw [Orchestrator.freeze, if_neg (not_not.2 hnil)]
    rcases h with h | h
    · refine Or.inr ⟨?_, h⟩
      rw [hfreeze, snapshot_specs, List.map_eq_nil_iff] at h
      exact h
    · left
      rw [h, hfreeze, checks_from_snapshot_snapshot_specs (built_declaratives o)]
  · rw [freeze_of_ne_nil hnil] at h
    rcases h with h | h
    · exact absurd h hnil
    · left
      rw [h, _declaratives, if_pos hnil]

/-- A step for a check of the list in use resolves the same way from then on. -/
theorem resolve_freeze {p : Check} {declaratives : List DeclarativeCheck}
    (hp : p ∈ allChecks registry o._declaratives) (h : o.freeze.DeclsOf declaratives) :
    _resolve_check registry p.name p.check_class declaratives =
      _resolve_check registry p.name p.check_class o._declaratives := by
  rcases h.freeze with rfl | ⟨hnil, -⟩
  · rfl
  · rw [hnil] at hp ⊢
    rcases mem_allChecks.1 hp with ⟨b, hb, rfl⟩ | ⟨d, hd, rfl⟩
    · have hname : b.name = (Check.builtin b).name := rfl
      rw [_resolve_check_builtin hb hname, _resolve_check_builtin hb hname]
    · cases hd

/-- A stored step resolves the same way once policy has read the list. -/
theorem Inv.resolve {r : PlanStep} {declaratives : List DeclarativeCheck}
    (hI : Inv registry record settings K o) (hr : r ∈ o.steps) (h : o.freeze.DeclsOf declaratives) :
    _resolve_check registry r.check_name r.check_class declaratives =
      _resolve_check registry r.check_name r.check_class o._declaratives := by
  rcases h.freeze with rfl | ⟨hnil, hfreeze⟩
  · rfl
  · have hsnap : o.assessment.skill_snapshot = [] := by
      by_contra hne
      rw [freeze_of_ne_nil hne] at hfreeze
      exact hne hfreeze
    rw [hnil, hI.stable hsnap r hr]

/-! ### Steps that leave the stored steps alone -/

theorem Cleared.mono {A B : List ℕ} {r : PlanStep} (h : Cleared registry K o A r) (hAB : A ⊆ B)
    (frozen : o.assessment.skill_snapshot ≠ [] →
      o'.assessment.skill_snapshot = o.assessment.skill_snapshot) : Cleared registry K o' B r :=
  fun declaratives hd c hc ↦ K.mono hAB (h declaratives (hd.of_frozen frozen) c hc)

theorem Inv.created (org_id : ℕ) (requested : List String) (incremental : Bool)
    (prev : Option (List Text)) :
    Inv registry record settings K (Orchestrator.created org_id requested incremental prev) where
  nodup := List.nodup_nil
  fresh _ hr := absurd hr List.not_mem_nil
  stable _ _ hr := absurd hr List.not_mem_nil
  wanted _ hr := absurd hr List.not_mem_nil
  sound _ hr := absurd hr List.not_mem_nil
  held _ hr := absurd hr List.not_mem_nil
  cleared _ hr := absurd hr List.not_mem_nil
  copies _ hr := absurd hr List.not_mem_nil
  awaited _ hr := absurd hr List.not_mem_nil
  review _ hr := absurd hr List.not_mem_nil
  tasks _ ht := absurd ht List.not_mem_nil
  invocations _ hv := absurd hv List.not_mem_nil

theorem Inv.released_of_mem (hI : Inv registry record settings K o) {r : PlanStep} (hr : r ∈ o.steps)
    (h : r.status.released = true) : o.Released r.id := by
  refine ⟨hI.fresh r hr, fun s hs hid ↦ ?_⟩
  rwa [List.inj_on_of_nodup_map hI.nodup hs hr hid]

/-- A step that changes no data may take up copies of released steps. -/
theorem Inv.collect (hI : Inv registry record settings K o) (data : SameData o o')
    (copies : ∀ r ∈ o'.copies, r ∈ o.copies ∨ r ∈ o.steps ∧ r.status.released = true)
    (awaited : ∀ id ∈ o'.awaited, o.Released id) (review : o'.review ⊆ o.review) :
    Inv registry record settings K o' := by
  have frozen := fun (_ : o.assessment.skill_snapshot ≠ []) ↦ data.snapshot
  have hclear : ∀ {A r}, Cleared registry K o A r → Cleared registry K o' A r :=
    fun h ↦ h.mono (List.Subset.refl _) frozen
  have hrel : ∀ {id}, o.Released id → o'.Released id := fun h ↦
    ⟨h.1.trans_le data.nextId, by rw [data.steps]; exact h.2⟩
  have hjob : ∀ {step endpoint check}, ClearedJob K o step endpoint check →
      ClearedJob K o' step endpoint check :=
    fun h ↦ ⟨by rw [data.approvals]; exact h.1, hrel h.2.1, h.2.2⟩
  refine ⟨?_, ?_, ?_, ?_, ?_, ?_, ?_, ?_, ?_, ?_, ?_, ?_⟩
  · rw [data.steps]
    exact hI.nodup
  · rw [data.steps]
    exact fun r hr ↦ (hI.fresh r hr).trans_le data.nextId
  · rw [data.steps, data.snapshot]
    exact hI.stable
  · rw [data.steps]
    exact hI.wanted
  · rw [data.steps]
    exact fun r hr declaratives hd ↦ hI.sound r hr declaratives (hd.of_frozen frozen)
  · rw [data.steps]
    exact fun r hr h ↦ hclear (hI.held r hr h)
  · rw [data.steps, data.approvals]
    exact fun r hr h ↦ hclear (hI.cleared r hr h)
  · rw [data.approvals]
    intro r hr
    rcases copies r hr with hr | ⟨hr, h⟩
    · exact (hI.copies r hr).imp hclear hrel
    · exact ⟨hclear (hI.cleared r hr h), hrel (hI.released_of_mem hr h)⟩
  · exact fun id hid ↦ hrel (awaited id hid)
  · rw [data.steps]
    exact fun r hr hid ↦ hI.review r hr (review hid)
  · intro t' ht'
    obtain ⟨t, ht, hstep, hendpoint, hcheck⟩ := data.jobs t' ht'
    rw [hstep, hendpoint, hcheck]
    exact hjob (hI.tasks t ht)
  · rw [data.invocations]
    exact fun v hv ↦ hjob (hI.invocations v hv)

/-- The task of the run may take up copies of released steps. -/
theorem Inv.collect_main (hI : Inv registry record settings K o) {m m' : Main}
    (data : SameData o o') (main : o.main = some m) (main' : o'.main = some m')
    (executions : o'.executions = o.executions)
    (copies : ∀ r ∈ m'.copies, r ∈ m.copies ∨ r ∈ o.steps ∧ r.status.released = true)
    (awaited : ∀ id ∈ m'.pc.awaited, o.Released id) (review : m'.review = []) :
    Inv registry record settings K o' := by
  refine hI.collect data (fun r hr ↦ ?_) (fun id hid ↦ ?_) ?_
  · rw [mem_copies] at hr
    rcases hr with ⟨m₁, hm₁, hr⟩ | ⟨x, hx, hr⟩
    · rw [← Option.some.inj (main'.symm.trans hm₁)] at hr
      exact (copies r hr).imp (fun hr ↦ mem_copies.2 (Or.inl ⟨m, main, hr⟩)) id
    · exact Or.inl (mem_copies.2 (Or.inr ⟨x, executions ▸ hx, hr⟩))
  · rw [Orchestrator.awaited, main'] at hid
    exact awaited id hid
  · rw [Orchestrator.review, main', Option.elim_some, review]
    exact List.nil_subset _

theorem Inv.control (hI : Inv registry record settings K o) (h : Control o o') :
    Inv registry record settings K o' :=
  hI.collect h.toSameData (fun _ hr ↦ Or.inl (h.copies hr))
    (fun id hid ↦ hI.awaited id (h.awaited hid)) h.review

/-- The state plays no part. -/
theorem Inv.setState (hI : Inv registry record settings K o) {state : AssessmentState} :
    Inv registry record settings K (o.setState state) :=
  ⟨hI.nodup, hI.fresh, hI.stable, hI.wanted, hI.sound, hI.held, hI.cleared, hI.copies, hI.awaited,
    hI.review, hI.tasks, hI.invocations⟩

theorem Inv.freeze (hI : Inv registry record settings K o) :
    Inv registry record settings K o.freeze := by
  by_cases h : o.assessment.skill_snapshot = []
  · have frozen : o.assessment.skill_snapshot ≠ [] →
        o.freeze.assessment.skill_snapshot = o.assessment.skill_snapshot := fun hne ↦ absurd h hne
    have hclear : ∀ {A r}, Cleared registry K o A r → Cleared registry K o.freeze A r :=
      fun h ↦ h.mono (List.Subset.refl _) frozen
    have heq : o.freeze = { o with assessment :=
        { o.assessment with skill_snapshot := snapshot_specs o._declaratives } } := by
      rw [Orchestrator.freeze, if_neg (not_not.2 h)]
    rw [heq] at hclear frozen ⊢
    exact ⟨hI.nodup, hI.fresh, fun _ ↦ hI.stable h, hI.wanted,
      fun r hr declaratives hd ↦ hI.sound r hr declaratives (hd.of_frozen frozen),
      fun r hr hst ↦ hclear (hI.held r hr hst), fun r hr hst ↦ hclear (hI.cleared r hr hst),
      fun r hr ↦ (hI.copies r hr).imp hclear id, hI.awaited, hI.review, hI.tasks, hI.invocations⟩
  · rwa [freeze_of_ne_nil h]

/-! ### Steps that write stored steps -/

/-- Rewriting stored steps in place. The status of a step may change as long as what is released stays
released, and what becomes released or held is cleared. -/
structure Rewrites (registry : _Registry) (K : Clearance) (o : Orchestrator) (A : List ℕ)
    (f : PlanStep → PlanStep) : Prop where
  same : ∀ s ∈ o.steps,
    (f s).id = s.id ∧ (f s).check_class = s.check_class ∧ (f s).check_name = s.check_name
  released : ∀ s ∈ o.steps, s.status.released = true → (f s).status.released = true
  cleared : ∀ s ∈ o.steps, (f s).status.released = true → s.status.released = false →
    Cleared registry K o A s
  held : ∀ s ∈ o.steps, (f s).status = .awaiting_approval → s.status ≠ .awaiting_approval →
    Cleared registry K o [s.id] s

theorem Inv.rewrite (hI : Inv registry record settings K o) {f : PlanStep → PlanStep} {A : List ℕ}
    (hf : Rewrites registry K o A f) (hA : o.approvals ⊆ A) (main : Option Main)
    (copies : main.elim [] Main.copies ⊆ o.main.elim [] Main.copies)
    (awaited : main.elim [] (·.pc.awaited) ⊆ o.awaited)
    (review : ∀ s ∈ o.steps, s.id ∈ main.elim [] Main.review → s.id ∈ o.review ∧ f s = s) :
    Inv registry record settings K
      { o with steps := o.steps.map f, approvals := A, main } := by
  have hids : (o.steps.map f).map (·.id) = o.steps.map (·.id) := by
    rw [List.map_map]
    exact List.map_congr_left fun s hs ↦ (hf.same s hs).1
  have hclear : ∀ {B s}, s ∈ o.steps → Cleared registry K o B s →
      ∀ {C}, B ⊆ C → Cleared registry K { o with steps := o.steps.map f, approvals := A, main } C (f s) := by
    intro B s hs h C hBC declaratives hd c hc
    obtain ⟨hid, hclass, hname⟩ := hf.same s hs
    rw [hclass, hname] at hc
    rw [hid]
    exact K.mono hBC (h declaratives hd c hc)
  have hrel : ∀ {id}, o.Released id →
      Released { o with steps := o.steps.map f, approvals := A, main } id := by
    intro id h
    refine ⟨h.1, fun r hr hid ↦ ?_⟩
    obtain ⟨s, hs, rfl⟩ := List.mem_map.1 hr
    exact hf.released s hs (h.2 s hs ((hf.same s hs).1.symm.trans hid))
  refine ⟨?_, ?_, ?_, ?_, ?_, ?_, ?_, ?_, ?_, ?_, ?_, ?_⟩
  · exact hids ▸ hI.nodup
  · intro r hr
    obtain ⟨s, hs, rfl⟩ := List.mem_map.1 hr
    exact (hf.same s hs).1 ▸ hI.fresh s hs
  · intro hsnap r hr declaratives
    obtain ⟨s, hs, rfl⟩ := List.mem_map.1 hr
    rw [(hf.same s hs).2.1, (hf.same s hs).2.2]
    exact hI.stable hsnap s hs declaratives
  · intro r hr
    obtain ⟨s, hs, rfl⟩ := List.mem_map.1 hr
    exact (hf.same s hs).2.1 ▸ hI.wanted s hs
  · intro r hr declaratives hd c hc
    obtain ⟨s, hs, rfl⟩ := List.mem_map.1 hr
    obtain ⟨hid, hclass, hname⟩ := hf.same s hs
    rw [hclass, hname] at hc
    rw [hid, hclass]
    exact hI.sound s hs declaratives hd c hc
  · intro r hr hst
    obtain ⟨s, hs, rfl⟩ := List.mem_map.1 hr
    rw [(hf.same s hs).1]
    refine hclear hs ?_ (List.Subset.refl _)
    by_cases hheld : s.status = .awaiting_approval
    · exact hI.held s hs hheld
    · exact hf.held s hs hst hheld
  · intro r hr hst
    obtain ⟨s, hs, rfl⟩ := List.mem_map.1 hr
    cases hwas : s.status.released with
    | true => exact hclear hs (hI.cleared s hs hwas) hA
    | false => exact hclear hs (hf.cleared s hs hst hwas) (List.Subset.refl _)
  · intro r hr
    have hr' : r ∈ o.copies := by
      rcases List.mem_append.1 hr with hr | hr
      · exact List.mem_append_left _ (copies hr)
      · exact List.mem_append_right _ hr
    obtain ⟨hcleared, hreleased⟩ := hI.copies r hr'
    exact ⟨fun declaratives hd c hc ↦ K.mono hA (hcleared declaratives hd c hc), hrel hreleased⟩
  · exact fun id hid ↦ hrel (hI.awaited id (awaited hid))
  · intro r hr hid
    obtain ⟨s, hs, rfl⟩ := List.mem_map.1 hr
    rw [(hf.same s hs).1] at hid
    obtain ⟨hreview, hsame⟩ := review s hs hid
    rw [hsame]
    exact hI.review s hs hreview
  · exact fun t ht ↦ (hI.tasks t ht).imp (K.mono hA) (.imp hrel id)
  · exact fun v hv ↦ (hI.invocations v hv).imp (K.mono hA) (.imp hrel id)

/-- Rewriting that leaves the tasks where they are; a step under review is not touched. -/
theorem Inv.rewrite_same (hI : Inv registry record settings K o) {f : PlanStep → PlanStep}
    {A : List ℕ} (hf : Rewrites registry K o A f) (hA : o.approvals ⊆ A)
    (hplanned : ∀ s ∈ o.steps, s.status = .planned → f s = s) :
    Inv registry record settings K { o with steps := o.steps.map f, approvals := A } :=
  hI.rewrite hf hA o.main (List.Subset.refl _) (List.Subset.refl _) fun s hs hid ↦
    ⟨hid, hplanned s hs (hI.review s hs hid)⟩

/-- The result of an agent is written to a released step. -/
theorem Inv.persist (hI : Inv registry record settings K o) {t : AgentTask} (ht : t ∈ o.tasks)
    (error : Bool) : Inv registry record settings K (o._persist_agent_result t error) := by
  obtain ⟨-, ⟨-, hrel⟩, -⟩ := hI.tasks t ht
  have hresult : (resultStatus error).released = true := by cases error <;> rfl
  refine hI.rewrite_same (A := o.approvals) ⟨fun s _ ↦ ?_, fun s _ h ↦ ?_, fun s hs h hwas ↦ ?_,
    fun s hs h hwas ↦ ?_⟩ (List.Subset.refl _) fun s hs hplanned ↦ ?_
  · split <;> exact ⟨rfl, rfl, rfl⟩
  · split
    · exact hresult
    · exact h
  · split at h
    next hid => rw [hrel s hs hid] at hwas; cases hwas
    next => rw [hwas] at h; cases h
  · split at h
    next => cases error <;> cases h
    next => exact absurd h hwas
  · split
    next hid =>
      have := hrel s hs hid
      rw [hplanned] at this
      cases this
    next => rfl

theorem Inv.status_of_held (hI : Inv registry record settings K o) {id : ℕ} (h : o.held id = true)
    {s : PlanStep} (hs : s ∈ o.steps) (hid : s.id = id) : s.status = .awaiting_approval := by
  rw [Orchestrator.held, Option.any_eq_true] at h
  obtain ⟨r, hr, hst⟩ := h
  have hrid := List.find?_some hr
  rw [List.inj_on_of_nodup_map hI.nodup hs (List.mem_of_find?_eq_some hr)
    (hid.trans (beq_iff_eq.1 hrid).symm)]
  exact beq_iff_eq.1 hst

/-- An operator approves a held step: its approval clears it. -/
theorem Inv.approve (hI : Inv registry record settings K o) {id : ℕ} (h : o.held id = true)
    (note : PolicyDecision → PolicyDecision) : Inv registry record settings K
      { o.decideStep id .approved note with approvals := o.approvals ++ [id] } := by
  refine hI.rewrite_same (A := o.approvals ++ [id]) ⟨fun s _ ↦ ?_, fun s _ hrel ↦ ?_,
    fun s hs hrel hwas ↦ ?_, fun s hs hheld hwas ↦ ?_⟩ (List.subset_append_left _ _)
    fun s hs hplanned ↦ ?_
  · split <;> exact ⟨rfl, rfl, rfl⟩
  · split
    · rfl
    · exact hrel
  · split at hrel
    next hid =>
      have hheld := hI.held s hs (hI.status_of_held h hs hid)
      exact hheld.mono (hid ▸ List.subset_append_right _ _) fun _ ↦ rfl
    next => rw [hwas] at hrel; cases hrel
  · split at hheld
    · cases hheld
    · exact absurd hheld hwas
  · split
    next hid =>
      rw [hI.status_of_held h hs hid] at hplanned
      cases hplanned
    next => rfl

/-- An operator denies a held step. -/
theorem Inv.deny (hI : Inv registry record settings K o) {id : ℕ} (h : o.held id = true)
    (note : PolicyDecision → PolicyDecision) :
    Inv registry record settings K (o.decideStep id .denied note) := by
  refine hI.rewrite_same (A := o.approvals) ⟨fun s _ ↦ ?_, fun s hs hrel ↦ ?_,
    fun s hs hrel hwas ↦ ?_, fun s hs hheld hwas ↦ ?_⟩ (List.Subset.refl _) fun s hs hplanned ↦ ?_
  · split <;> exact ⟨rfl, rfl, rfl⟩
  · split
    next hid => rw [hI.status_of_held h hs hid] at hrel; cases hrel
    next => exact hrel
  · split at hrel
    · cases hrel
    · rw [hwas] at hrel
      cases hrel
  · split at hheld
    · cases hheld
    · exact absurd hheld hwas
  · split
    next hid =>
      rw [hI.status_of_held h hs hid] at hplanned
      cases hplanned
    next => rfl

/-- Approved steps are skipped. -/
theorem Inv.block (hI : Inv registry record settings K o) {ids : List ℕ}
    (happroved : ∀ s ∈ o.steps, s.id ∈ ids → s.status = .approved) (reason : String) :
    Inv registry record settings K (o.blockSteps ids reason) := by
  refine hI.rewrite_same (A := o.approvals) ⟨fun s _ ↦ ?_, fun s _ hrel ↦ ?_,
    fun s hs hrel hwas ↦ ?_, fun s hs hheld hwas ↦ ?_⟩ (List.Subset.refl _) fun s hs hplanned ↦ ?_
  · split <;> exact ⟨rfl, rfl, rfl⟩
  · split
    · rfl
    · exact hrel
  · split at hrel
    next hid => rw [happroved s hs hid] at hwas; cases hwas
    next => rw [hwas] at hrel; cases hrel
  · split at hheld
    · cases hheld
    · exact absurd hheld hwas
  · split
    next hid => rw [happroved s hs hid] at hplanned; cases hplanned
    next => rfl

/-- An execution begins. -/
theorem Inv.begin (hI : Inv registry record settings K o) (j : ℕ) (x : Execution) (now : ℤ) :
    Inv registry record settings K (execute_approved_steps record settings o j x now) := by
  have happroved : ∀ r ∈ (o._reload_steps x.step_ids).filter (·.status == .approved),
      r ∈ o.steps ∧ r.status = .approved := by
    intro r hr
    obtain ⟨hr, hst⟩ := List.mem_filter.1 hr
    exact ⟨List.mem_of_mem_filter hr, beq_iff_eq.1 hst⟩
  unfold execute_approved_steps
  dsimp only
  split
  · exact hI.control (.of_execution .of_eq rfl rfl rfl)
  split
  · refine (hI.block (fun s hs hid ↦ ?_) _).control (.of_execution .of_eq rfl rfl rfl)
    obtain ⟨r, hr, hrid⟩ := List.mem_map.1 hid
    obtain ⟨hmem, hst⟩ := happroved r hr
    rwa [List.inj_on_of_nodup_map hI.nodup hs hmem hrid.symm]
  · refine hI.collect .of_eq (fun r hr ↦ ?_) hI.awaited (List.Subset.refl _)
    rw [mem_copies] at hr
    rcases hr with hmain | ⟨y, hy, hr⟩
    · exact Or.inl (mem_copies.2 (Or.inl hmain))
    · rcases List.mem_or_eq_of_mem_set hy with hy | rfl
      · exact Or.inl (mem_copies.2 (Or.inr ⟨y, hy, hr⟩))
      · obtain ⟨hmem, hst⟩ := happroved r hr
        exact Or.inr ⟨hmem, by rw [hst]; rfl⟩

/-! ### Policy and the wait -/

theorem freeze_judgeAll (o : Orchestrator) (ids : List ℕ) :
    (judgeAll registry record settings o ids).freeze =
      { o.freeze with steps := (judgeAll registry record settings o ids).steps } := by
  by_cases h : o.assessment.skill_snapshot = []
  · rw [Orchestrator.freeze, Orchestrator.freeze, if_neg (not_not.2 h)]
    exact if_neg (not_not.2 h)
  · rw [Orchestrator.freeze, Orchestrator.freeze, if_pos h]
    exact if_pos h

/-- The steps policy judges are planned. -/
theorem Inv.planned_of_underReview (hI : Inv registry record settings K o) {m : Main}
    (main : o.main = some m) (pc : m.pc = .inside .policy) {s : PlanStep} (hs : s ∈ o.steps)
    (hid : s.id ∈ underReview settings o m) : s.status = .planned := by
  rw [underReview] at hid
  split at hid
  · obtain ⟨r, hr, hrid⟩ := List.mem_map.1 hid
    obtain ⟨hmem, hst⟩ := List.mem_filter.1 hr
    rw [List.inj_on_of_nodup_map hI.nodup hs hmem hrid.symm]
    exact beq_iff_eq.1 hst
  · refine hI.review s hs ?_
    rw [Orchestrator.review, main, Option.elim_some, Main.review, pc]
    exact hid

/-- What policy lets through is cleared. -/
theorem Inv.rewrites_judge (hI : Inv registry record settings K o) {ids : List ℕ}
    (hplanned : ∀ s ∈ o.steps, s.id ∈ ids → s.status = .planned) :
    Rewrites registry K o.freeze o.approvals fun s ↦
      if s.id ∈ ids then judge registry (_make_guard record settings) settings o._declaratives s
      else s := by
  have hsteps : o.freeze.steps = o.steps := by rw [freeze_eq]
  have hverdict := verdict_judge registry (_make_guard record settings) settings o._declaratives
  refine ⟨fun s hs ↦ ?_, fun s hs hrel ↦ ?_, fun s hs hrel hwas ↦ ?_, fun s hs hheld hwas ↦ ?_⟩ <;>
    rw [hsteps] at hs
  · split
    · obtain ⟨hid, -, hclass, hname⟩ :=
        judge_same registry (_make_guard record settings) settings o._declaratives s
      exact ⟨hid, hclass, hname⟩
    · exact ⟨rfl, rfl, rfl⟩
  · split
    next hid => rw [hplanned s hs hid] at hrel; cases hrel
    next => exact hrel
  · split at hrel
    next hid =>
      intro declaratives hd c hc
      rw [hI.resolve hs hd] at hc
      have hlets := hI.sound s hs _ (declsOf_declaratives o) c hc
      cases hv : (judge registry (_make_guard record settings) settings o._declaratives s).status with
      | approved =>
        cases hv ▸ hverdict s with
        | approved check hcheck hallowed hfree =>
          obtain rfl := Option.some.inj (hcheck.symm.trans hc)
          exact K.mono (List.nil_subset _) ((hlets hallowed).1 hfree)
      | skipped =>
        cases hv ▸ hverdict s with
        | skipped hnone => exact absurd (hnone.symm.trans hc) (by simp)
      | planned | denied | awaiting_approval => rw [hv] at hrel; cases hrel
      | done | errored => nomatch hv ▸ hverdict s
    next => rw [hwas] at hrel; cases hrel
  · split at hheld
    next hid =>
      intro declaratives hd c hc
      rw [hI.resolve hs hd] at hc
      have hlets := hI.sound s hs _ (declsOf_declaratives o) c hc
      cases hheld ▸ hverdict s with
      | held check hcheck hallowed =>
        obtain rfl := Option.some.inj (hcheck.symm.trans hc)
        exact (hlets hallowed).2
    next => exact absurd hheld hwas

/-- Policy judges the steps under review. -/
theorem Inv.policy (hI : Inv registry record settings K o) {m : Main} (main : o.main = some m)
    (pc : m.pc = .inside .policy) :
    Inv registry record settings K (_phase_policy registry record settings o m) := by
  have hplanned : ∀ s ∈ o.steps, s.id ∈ underReview settings o m → s.status = .planned :=
    fun s hs hid ↦ hI.planned_of_underReview main pc hs hid
  unfold _phase_policy
  dsimp only
  set ids := underReview settings o m
  set o₁ := (judgeAll registry record settings o ids).freeze with ho₁
  have hI₁ : Inv registry record settings K (o₁.setMain { m with pc := .leaving }) := by
    have hmain : o.freeze.main = o.main := by rw [freeze_eq]
    have h := hI.freeze.rewrite (hI.rewrites_judge hplanned)
      (by rw [freeze_eq]; exact List.Subset.refl _) (some { m with pc := .leaving }) (by
        rw [hmain, main]
        exact Main.copies_subset rfl (List.nil_subset _)) (List.nil_subset _) fun s _ hid ↦
          absurd hid List.not_mem_nil
    rw [freeze_judgeAll] at ho₁
    rw [ho₁]
    have hsteps : o.freeze.steps = o.steps := by rw [freeze_eq]
    have happ : o.freeze.approvals = o.approvals := by rw [freeze_eq]
    rw [hsteps] at h
    rw [setMain, judgeAll]
    rw [← happ] at h
    exact h
  set judged := o₁._reload_steps ids
  set allowed := (judged.filter (·.status == .approved)).map (·.id)
  have hallowed : ∀ id ∈ allowed, o₁.Released id := by
    intro id hid
    obtain ⟨s, hs, rfl⟩ := List.mem_map.1 hid
    obtain ⟨hs, hst⟩ := List.mem_filter.1 hs
    exact hI₁.released_of_mem (List.mem_of_mem_filter hs) (by rw [beq_iff_eq.1 hst]; rfl)
  split
  · split
    · have hgo : Control (o₁.setMain { m with pc := .leaving }) (goto settings _ m .execute) :=
        control_goto (.refl _) rfl rfl rfl (by decide)
      exact hI₁.control (hgo.trans (.of_same .of_eq rfl rfl))
    · exact hI₁.control (.of_same .of_eq rfl rfl)
  split
  · refine hI₁.collect_main .of_eq rfl rfl rfl (fun r hr ↦ Or.inr ?_)
      (fun id hid ↦ absurd hid List.not_mem_nil) rfl
    obtain ⟨hr, hid⟩ := List.mem_filter.1 ((List.mem_append.1 hr).resolve_right List.not_mem_nil)
    exact ⟨hr, (hallowed r.id (List.contains_iff_mem.1 hid)).2 r hr rfl⟩
  · exact hI₁.collect_main .of_eq rfl rfl rfl (fun r hr ↦ Or.inl hr) hallowed rfl

/-- The wait collects approvals. -/
theorem Inv.poll (hI : Inv registry record settings K o) {m : Main} {approved pending : List ℕ}
    (main : o.main = some m) (pc : m.pc = .awaiting approved pending) (expired : Bool) :
    Inv registry record settings K
      (_await_step_approvals settings o m approved pending expired) := by
  unfold _await_step_approvals
  dsimp only
  set collected := approved ++ ((o._reload_steps pending).filter (·.status == .approved)).map (·.id)
  have hcollected : ∀ id ∈ collected, o.Released id := by
    intro id hid
    rcases List.mem_append.1 hid with hid | hid
    · refine hI.awaited id ?_
      rw [Orchestrator.awaited, main, Option.elim_some, pc]
      exact hid
    · obtain ⟨s, hs, rfl⟩ := List.mem_map.1 hid
      obtain ⟨hs, hst⟩ := List.mem_filter.1 hs
      exact hI.released_of_mem (List.mem_of_mem_filter hs) (by rw [beq_iff_eq.1 hst]; rfl)
  split
  · refine hI.collect_main .of_eq main rfl rfl (fun r hr ↦ Or.inr ?_)
      (fun id hid ↦ absurd hid List.not_mem_nil) rfl
    obtain ⟨hr, hid⟩ := List.mem_filter.1 ((List.mem_append.1 hr).resolve_right List.not_mem_nil)
    exact ⟨hr, (hcollected r.id (List.contains_iff_mem.1 hid)).2 r hr rfl⟩
  · refine hI.collect_main .of_eq main rfl rfl (fun r hr ↦ Or.inl ?_) hcollected rfl
    rw [Main.copies, pc]
    exact hr

/-! ### Execution -/

/-- Execution takes up its steps. -/
theorem Inv.takes (hI : Inv registry record settings K o) {m : Main} (main : o.main = some m) :
    Inv registry record settings K
      (o.setMain { m with pc := .loggingIn (toExecute settings o m) }) := by
  refine hI.collect_main .of_eq main rfl rfl (fun r hr ↦ ?_)
    (fun id hid ↦ absurd hid List.not_mem_nil) rfl
  rcases List.mem_append.1 hr with hr | hr
  · exact Or.inl (List.mem_append_left _ hr)
  · change r ∈ toExecute settings o m at hr
    rw [toExecute] at hr
    split at hr
    · obtain ⟨hr, hst⟩ := List.mem_filter.1 hr
      exact Or.inr ⟨hr, by rw [beq_iff_eq.1 hst]; rfl⟩
    · exact Or.inl (List.mem_append_left _ hr)

/-- Agents are put into a pool. -/
theorem Inv.spawn (hI : Inv registry record settings K o) {tasks : List AgentTask}
    (htasks : ∀ t ∈ tasks, ClearedJob K o t.step t.endpoint t.check) :
    Inv registry record settings K (o.spawn tasks) := by
  refine ⟨hI.nodup, hI.fresh, hI.stable, hI.wanted, hI.sound, hI.held, hI.cleared, hI.copies,
    hI.awaited, hI.review, fun t ht ↦ ?_, hI.invocations⟩
  rcases List.mem_append.1 ht with ht | ht
  · exact hI.tasks t ht
  · exact htasks t ht

/-- The agents of held copies are put into a pool. -/
theorem Inv.dispatch (hI : Inv registry record settings K o) {client : ℕ} {steps : List PlanStep}
    {tasks : List AgentTask} (agents : agentsFor registry o o._declaratives client steps = some tasks)
    (hsteps : ∀ r ∈ steps, r ∈ o.copies) :
    Inv registry record settings K (o.freeze.spawn tasks) := by
  refine hI.freeze.spawn fun t ht ↦ ?_
  obtain ⟨hmem, hendpoint, hresolve⟩ := agentsFor_mem agents ht
  obtain ⟨hcleared, hreleased⟩ := hI.copies t.step (hsteps _ hmem)
  rw [freeze_eq]
  exact ⟨hcleared _ (declsOf_declaratives o) _ hresolve, hreleased, hendpoint⟩

/-- An agent runs its check. -/
theorem Inv.invoke (hI : Inv registry record settings K o) {v : Invocation}
    (hv : ClearedJob K o v.step v.endpoint v.check) :
    Inv registry record settings K { o with invocations := o.invocations ++ [v] } := by
  refine ⟨hI.nodup, hI.fresh, hI.stable, hI.wanted, hI.sound, hI.held, hI.cleared, hI.copies,
    hI.awaited, hI.review, hI.tasks, fun w hw ↦ ?_⟩
  rcases List.mem_append.1 hw with hw | hw
  · exact hI.invocations w hw
  · rw [List.mem_singleton.1 hw]
    exact hv

/-! ### New steps -/

/-- Steps are stored under new ids. -/
theorem Inv.addSteps (hI : Inv registry record settings K o) (rows : List PlanStep)
    (main : Option Main)
    (stable : o.assessment.skill_snapshot = [] → ∀ r ∈ rows, ∀ declaratives,
      _resolve_check registry r.check_name r.check_class declaratives =
        _resolve_check registry r.check_name r.check_class [])
    (wanted : ∀ r ∈ rows, K.wanted r.check_class)
    (sound : ∀ r ∈ o.numbered rows, Sound registry record settings K o r)
    (status : ∀ r ∈ o.numbered rows,
      r.status = .planned ∨ r.status = .approved ∧ Cleared registry K o o.approvals r)
    (copies : main.elim [] Main.copies ⊆ o.main.elim [] Main.copies)
    (awaited : main.elim [] (·.pc.awaited) ⊆ o.awaited)
    (review : ∀ id ∈ main.elim [] Main.review,
      o.nextId ≤ id ∧ ∀ r ∈ o.numbered rows, r.status = .planned) :
    Inv registry record settings K { o.addSteps (o.numbered rows) with main } := by
  have hnew : ∀ r ∈ o.numbered rows, o.nextId ≤ r.id ∧ r.id < o.nextId + rows.length := by
    intro r hr
    obtain ⟨s, -, i, hi, rfl⟩ := mem_numbered hr
    exact ⟨Nat.le_add_right _ _, Nat.add_lt_add_left hi _⟩
  have hrel : ∀ {id}, o.Released id →
      Released { o.addSteps (o.numbered rows) with main } id := by
    intro id h
    refine ⟨h.1.trans_le (Nat.le_add_right _ _), fun r hr hid ↦ ?_⟩
    rcases List.mem_append.1 hr with hr | hr
    · exact h.2 r hr hid
    · exact absurd h.1 (not_lt.2 (hid ▸ (hnew r hr).1))
  refine ⟨?_, fun r hr ↦ ?_, fun hsnap r hr ↦ ?_, fun r hr ↦ ?_, fun r hr ↦ ?_, fun r hr hst ↦ ?_,
    fun r hr hst ↦ ?_, fun r hr ↦ ?_, fun id hid ↦ hrel (hI.awaited id (awaited hid)),
    fun r hr hid ↦ ?_, fun t ht ↦ (hI.tasks t ht).imp id (.imp hrel id),
    fun v hv ↦ (hI.invocations v hv).imp id (.imp hrel id)⟩
  · refine List.map_append ▸ List.nodup_append.2 ⟨hI.nodup, nodup_numbered rows, ?_⟩
    intro a ha b hb hab
    obtain ⟨r, hr, rfl⟩ := List.mem_map.1 ha
    obtain ⟨s, hs, rfl⟩ := List.mem_map.1 hb
    exact absurd (hI.fresh r hr) (not_lt.2 (hab ▸ (hnew s hs).1))
  · rcases List.mem_append.1 hr with hr | hr
    · exact (hI.fresh r hr).trans_le (Nat.le_add_right _ _)
    · change r.id < o.nextId + (o.numbered rows).length
      rw [length_numbered]
      exact (hnew r hr).2
  · rcases List.mem_append.1 hr with hr | hr
    · exact hI.stable hsnap r hr
    · obtain ⟨s, hs, i, -, rfl⟩ := mem_numbered hr
      exact stable hsnap s hs
  · rcases List.mem_append.1 hr with hr | hr
    · exact hI.wanted r hr
    · obtain ⟨s, hs, i, -, rfl⟩ := mem_numbered hr
      exact wanted s hs
  · rcases List.mem_append.1 hr with hr | hr
    · exact hI.sound r hr
    · exact sound r hr
  · rcases List.mem_append.1 hr with hr | hr
    · exact hI.held r hr hst
    · rcases status r hr with h | ⟨h, -⟩ <;> rw [h] at hst <;> cases hst
  · rcases List.mem_append.1 hr with hr | hr
    · exact hI.cleared r hr hst
    · rcases status r hr with h | ⟨-, h⟩
      · rw [h] at hst
        cases hst
      · exact h
  · have hr' : r ∈ o.copies := by
      rcases List.mem_append.1 hr with hr | hr
      · exact List.mem_append_left _ (copies hr)
      · exact List.mem_append_right _ hr
    exact (hI.copies r hr').imp id hrel
  · obtain ⟨hle, hplanned⟩ := review r.id hid
    rcases List.mem_append.1 hr with hr | hr
    · exact absurd (hI.fresh r hr) (not_lt.2 hle)
    · exact hplanned r hr

/-- What a clearance demands of a check that is planned for. -/
def AllowsPlan (registry : _Registry) (record : AuthorizationRecord) (settings : Settings)
    (K : Clearance) (declaratives : List DeclarativeCheck) (p : Check) : Prop :=
  K.wanted p.check_class ∧ ∀ c,
    _resolve_check registry p.name p.check_class declaratives = some c →
      ∀ id, Lets record settings K p.check_class id c

/-- What a clearance demands of the check picked for a class with a coverage gap. -/
def AllowsGap (registry : _Registry) (record : AuthorizationRecord) (settings : Settings)
    (K : Clearance) (cclass : String) : Prop :=
  ∀ b, _pick_check registry cclass = some b →
    ((_make_guard record settings).check_class_allowed cclass b.intensity).allowed = true →
      K.wanted cclass ∧ ∀ id, K.clear [] id (.builtin b)

/-- Planning stores its plan. -/
theorem Inv.plan (hI : Inv registry record settings K o) {m : Main} (main : o.main = some m)
    {multi : Bool} {strategy : String} {order : Option (List String)}
    (hplan : ∀ ev ∈ (offered settings o m).map _endpoint_view,
      ∀ p ∈ allChecks registry o._declaratives,
        Considers (effective record o.assessment) (_coerce_intensity record.intensity) multi ev p →
          AllowsPlan registry record settings K o._declaratives p) :
    Inv registry record settings K
      (_phase_planning registry record settings o m multi strategy order) := by
  set rows := (planOf registry record settings o m multi strategy order).map plannedRow with hrows
  have hfrom : ∀ r ∈ rows, ∃ p ∈ allChecks registry o._declaratives,
      AllowsPlan registry record settings K o._declaratives p ∧ r.check_class = p.check_class ∧
        r.check_name = p.name ∧ r.status = .planned := by
    intro r hr
    obtain ⟨q, hq, rfl⟩ := List.mem_map.1 hr
    rw [planOf, (perm_rerank_plan _ _).mem_iff, (perm_apply_strategy _ _).mem_iff,
      mem_build_plan_iff] at hq
    obtain ⟨ev, hev, p, hp, hconsiders, rfl⟩ := hq
    exact ⟨p, hp, hplan ev hev p hp hconsiders, rfl, rfl, rfl⟩
  have hnum : o.freeze.numbered rows = o.numbered rows := by rw [freeze_eq]; rfl
  have h := hI.freeze.addSteps rows
    (some { m with plan := (o.numbered rows).map (·.id), pc := .entering .policy })
    (fun hsnap r hr declaratives ↦ by
      obtain ⟨p, hp, -, hclass, hname, -⟩ := hfrom r hr
      rw [hclass, hname]
      exact (resolve_freeze hp (Or.inl hsnap)).trans (resolve_freeze hp (Or.inl hsnap)).symm)
    (fun r hr ↦ by
      obtain ⟨p, -, hallows, hclass, -⟩ := hfrom r hr
      exact hclass ▸ hallows.1)
    (fun r hr declaratives hd c hc ↦ by
      obtain ⟨s, hs, i, -, rfl⟩ := mem_numbered hr
      obtain ⟨p, hp, hallows, hclass, hname, -⟩ := hfrom s hs
      dsimp only at hc ⊢
      rw [hclass, hname, resolve_freeze hp hd] at hc
      exact hclass ▸ hallows.2 c hc _)
    (fun r hr ↦ by
      obtain ⟨s, hs, i, -, rfl⟩ := mem_numbered hr
      obtain ⟨p, -, -, -, -, hst⟩ := hfrom s hs
      exact Or.inl hst)
    (by
      rw [freeze_eq, main]
      exact Main.copies_subset rfl (List.nil_subset _))
    (List.nil_subset _)
    (fun id hid ↦ by
      refine ⟨?_, fun r hr ↦ ?_⟩
      · obtain ⟨r, hr, rfl⟩ := List.mem_map.1 hid
        obtain ⟨s, -, i, -, rfl⟩ := mem_numbered (hnum ▸ hr)
        exact Nat.le_add_right _ _
      · obtain ⟨s, hs, i, -, rfl⟩ := mem_numbered hr
        obtain ⟨p, -, -, -, -, hst⟩ := hfrom s hs
        exact hst)
  rw [hnum] at h
  exact h.control (.of_main .of_eq rfl rfl rfl (List.Subset.refl _) (List.Subset.refl _)
    (List.Subset.refl _))

/-- Some stored endpoint has no step of the class that is done. -/
def Uncovered (o : Orchestrator) (cclass : String) : Prop :=
  ∃ e ∈ o.endpoints, ∀ s ∈ o.steps, s.status = .done → s.endpoint_id = e.id → s.check_class ≠ cclass

instance (o : Orchestrator) (cclass : String) : Decidable (o.Uncovered cclass) :=
  inferInstanceAs (Decidable (∃ e ∈ o.endpoints, _))

/-- A row of replanning is an approved step for the check picked for an authorized class that is not
covered. -/
theorem gapRow_mem {declaratives : List DeclarativeCheck} {classes : List String} {n : ℕ}
    (hclasses : classes.Perm record.allowed_check_classes.dedup) {s : PlanStep}
    (hs : s ∈ ((gaps registry record settings o declaratives classes).take n).map
      (gapRow registry declaratives)) :
    n ≠ 0 ∧ ∃ b, _pick_check registry s.check_class = some b ∧
      s.check_class ∈ record.allowed_check_classes ∧ o.Uncovered s.check_class ∧
      ((_make_guard record settings).check_class_allowed s.check_class b.intensity).allowed = true ∧
      s.check_name = b.name ∧ s.status = .approved := by
  obtain ⟨gap, hgap, rfl⟩ := List.mem_map.1 hs
  refine ⟨fun hn ↦ by rw [hn] at hgap; exact absurd hgap List.not_mem_nil, ?_⟩
  obtain ⟨e, he, hgap⟩ := List.mem_flatMap.1 (List.mem_of_mem_take hgap)
  obtain ⟨cclass, hcclass, hgap⟩ := List.mem_filterMap.1 hgap
  split at hgap
  · cases hgap
  next hdone =>
  obtain ⟨check, hcheck, hgap⟩ := Option.bind_eq_some_iff.1 hgap
  split at hgap
  next hallowed =>
    obtain rfl := Option.some.inj hgap
    rw [_resolve_check, if_pos rfl] at hcheck
    obtain ⟨b, hb, rfl⟩ := Option.map_eq_some_iff.1 hcheck
    refine ⟨b, hb, List.mem_dedup.1 (hclasses.mem_iff.1 hcclass), ⟨e, he, ?_⟩, hallowed, rfl, rfl⟩
    intro s hs hst hid (hclass : s.check_class = cclass)
    exact hdone (List.any_eq_true.2 ⟨s, hs, by simp [hst, hid, hclass]⟩)
  next => cases hgap

/-- Replanning stores approved steps and puts their agents into a pool. -/
theorem Inv.replan (hI : Inv registry record settings K o) {m : Main} {iteration client : ℕ}
    {classes : List String} {tasks : List AgentTask} (main : o.main = some m)
    (pc : m.pc = .replanning iteration)
    (hclasses : classes.Perm record.allowed_check_classes.dedup)
    (hgap : settings.replan_batch ≠ 0 → ∀ cclass ∈ record.allowed_check_classes, o.Uncovered cclass →
      AllowsGap registry record settings K cclass)
    (agents : agentsFor registry o m.declaratives client
      (gapRows registry record settings o m classes) = some tasks) :
    Inv registry record settings K
      ((o.addSteps (gapRows registry record settings o m classes)).spawn tasks) := by
  set rows := ((gaps registry record settings o m.declaratives classes).take
    settings.replan_batch).map (gapRow registry m.declaratives)
  -- the name of a picked check resolves to it, so a row is cleared at once
  have hfrom : ∀ s ∈ rows, ∃ b, (∀ declaratives, _resolve_check registry s.check_name s.check_class
      declaratives = some (.builtin b)) ∧ K.wanted s.check_class ∧
        (∀ id, K.clear [] id (.builtin b)) ∧ s.status = .approved := by
    intro s hs
    obtain ⟨hn, b, hpick, hauth, huncovered, hallowed, hname, hst⟩ := gapRow_mem hclasses hs
    obtain ⟨hwanted, hclear⟩ := hgap hn _ hauth huncovered b hpick hallowed
    exact ⟨b, fun _ ↦ hname ▸ _resolve_check_picked hpick, hwanted, hclear, hst⟩
  have hclear : ∀ r ∈ o.numbered rows, ∀ declaratives c A,
      _resolve_check registry r.check_name r.check_class declaratives = some c →
        K.clear A r.id c := by
    intro r hr declaratives c A hc
    obtain ⟨s, hs, i, -, rfl⟩ := mem_numbered hr
    obtain ⟨b, hresolve, -, hclear, -⟩ := hfrom s hs
    obtain rfl := Option.some.inj ((hresolve declaratives).symm.trans hc)
    exact K.mono (List.nil_subset _) (hclear _)
  have hstatus : ∀ r ∈ o.numbered rows, r.status = .approved := by
    intro r hr
    obtain ⟨s, hs, i, -, rfl⟩ := mem_numbered hr
    obtain ⟨b, -, -, -, hst⟩ := hfrom s hs
    exact hst
  have hadd : Inv registry record settings K (o.addSteps (o.numbered rows)) := by
    refine hI.addSteps rows o.main (fun _ r hr declaratives ↦ ?_) (fun r hr ↦ ?_)
      (fun r hr declaratives _ c hc _ ↦ ?_) (fun r hr ↦ Or.inr ⟨hstatus r hr, ?_⟩)
      (List.Subset.refl _) (List.Subset.refl _) fun id hid ↦ ?_
    · obtain ⟨b, hresolve, -⟩ := hfrom r hr
      rw [hresolve, hresolve]
    · obtain ⟨b, -, hwanted, -⟩ := hfrom r hr
      exact hwanted
    · exact ⟨fun _ ↦ hclear r hr declaratives c [] hc, hclear r hr declaratives c [r.id] hc⟩
    · exact fun declaratives _ c hc ↦ hclear r hr declaratives c _ hc
    · rw [main, Option.elim_some, Main.review, pc] at hid
      cases hid
  refine hadd.spawn fun t ht ↦ ?_
  obtain ⟨hmem, hendpoint, hresolve⟩ := agentsFor_mem agents ht
  refine ⟨hclear _ hmem _ _ _ hresolve, hadd.released_of_mem (List.mem_append_right _ hmem) ?_,
    hendpoint⟩
  rw [hstatus _ hmem]
  rfl

/-! ### Runs -/

/-- An iteration of replanning is about to schedule gaps, and there may be one of this class. -/
def ReplansFor (record : AuthorizationRecord) (settings : Settings) (o : Orchestrator)
    (e : EngineEvent) (cclass : String) : Prop :=
  (∃ answer ∈ e.replans, ∃ m ∈ o.main, ∃ iteration ∈ m.pc.iteration,
    ¬o.stopsReplanning record settings iteration answer) ∧
      settings.replan_batch ≠ 0 ∧ o.Uncovered cclass

instance (record : AuthorizationRecord) (settings : Settings) (o : Orchestrator) (e : EngineEvent)
    (cclass : String) : Decidable (ReplansFor record settings o e cclass) :=
  inferInstanceAs (Decidable (_ ∧ _))

/-- The side condition on a step: planning and replanning plan for nothing uncleared or unwanted. -/
def Respects (registry : _Registry) (record : AuthorizationRecord) (settings : Settings)
    (K : Clearance) (o : Orchestrator) (e : EngineEvent) : Prop :=
  (∀ multi ∈ e.planning, ∀ m ∈ o.main,
    ∀ ev ∈ (offered settings o m).map _endpoint_view, ∀ p ∈ allChecks registry o._declaratives,
      Considers (effective record o.assessment) (_coerce_intensity record.intensity) multi ev p →
        AllowsPlan registry record settings K o._declaratives p) ∧
    ∀ cclass ∈ record.allowed_check_classes, ReplansFor record settings o e cclass →
      AllowsGap registry record settings K cclass

/-- **Every move that respects a clearance keeps its invariant.** -/
theorem Inv.move {e : EngineEvent} (hI : Inv registry record settings K o)
    (hC : Respects registry record settings K o e) (h : Move registry record settings o e o') :
    Inv registry record settings K o' := by
  cases h with
  | control control => exact hI.control control
  | planned main pc => exact hI.plan main (hC.1 _ rfl _ main)
  | judged main pc => exact hI.policy main pc
  | polled main pc => exact hI.poll main pc _
  | takes main pc => exact hI.takes main
  | @dispatched m steps tasks main pc agents =>
    have hcopies : ∀ r ∈ m.pc.copies, r ∈ o.copies := fun r hr ↦
      mem_copies.2 (Or.inl ⟨m, main, List.mem_append_right _ hr⟩)
    rw [pc] at hcopies
    have hmain : (o.freeze.spawn tasks).main = some m := by
      rw [freeze_eq]
      exact main
    exact (hI.dispatch agents hcopies).control
      (control_setMain .of_eq hmain rfl rfl rfl rfl (List.nil_subset _))
  | settled task state control =>
    exact (hI.persist (List.mem_of_getElem? task) _).control control
  | replanned main pc goes order agents =>
    refine (hI.replan main pc order (fun hbatch cclass hcclass huncovered ↦ ?_) agents).control
      (control_setMain .of_eq main rfl rfl rfl rfl (List.nil_subset _))
    exact hC.2 cclass hcclass ⟨⟨_, rfl, _, main, _, by rw [pc]; rfl, goes⟩, hbatch, huncovered⟩
  | began execution => exact hI.begin _ _ _
  | @executed j x steps tasks execution pc agents =>
    have hcopies : ∀ r ∈ x.pc.copies, r ∈ o.copies := fun r hr ↦
      mem_copies.2 (Or.inr ⟨x, List.mem_of_getElem? execution, hr⟩)
    rw [pc] at hcopies
    exact (hI.dispatch agents hcopies).control (.of_execution .of_eq rfl rfl rfl)
  | invoked task control =>
    have hI₁ := hI.control control
    refine hI₁.invoke ?_
    have htask := hI.tasks _ (List.mem_of_getElem? task)
    refine ⟨by rw [control.approvals]; exact htask.1, ⟨htask.2.1.1.trans_le control.nextId, ?_⟩,
      htask.2.2⟩
    rw [control.steps]
    exact htask.2.1.2
  | approved held control => exact (hI.approve held _).control control
  | denied held control => exact (hI.deny held _).control control
  | cancelled cancels control => exact hI.setState.control control
  | cleared control =>
    refine Inv.control ?_ control
    exact ⟨List.nodup_nil, fun _ h ↦ absurd h List.not_mem_nil,
      fun _ _ h ↦ absurd h List.not_mem_nil, fun _ h ↦ absurd h List.not_mem_nil,
      fun _ h ↦ absurd h List.not_mem_nil, fun _ h ↦ absurd h List.not_mem_nil,
      fun _ h ↦ absurd h List.not_mem_nil,
      fun r hr ↦ (hI.copies r hr).imp id fun hrel ↦ ⟨hrel.1, fun _ h ↦ absurd h List.not_mem_nil⟩,
      fun id hid ↦ ⟨(hI.awaited id hid).1, fun _ h ↦ absurd h List.not_mem_nil⟩,
      fun _ h ↦ absurd h List.not_mem_nil,
      fun t ht ↦ (hI.tasks t ht).imp id
        (.imp (fun hrel ↦ ⟨hrel.1, fun _ h ↦ absurd h List.not_mem_nil⟩) id),
      fun v hv ↦ (hI.invocations v hv).imp id
        (.imp (fun hrel ↦ ⟨hrel.1, fun _ h ↦ absurd h List.not_mem_nil⟩) id)⟩

theorem Inv.step {e : EngineEvent} (hI : Inv registry record settings K o)
    (hC : Respects registry record settings K o e)
    (h : step registry record settings o e = some o') : Inv registry record settings K o' :=
  hI.move hC (move_of_step h)

/-- **Along a run that respects a clearance, the invariant holds.** -/
theorem inv_of_respects {org_id : ℕ} {requested : List String} {incremental : Bool}
    {prev : Option (List Text)} {es : List EngineEvent}
    (hC : Machine.Along (Orchestrator.step registry record settings)
      (Respects registry record settings K) (created org_id requested incremental prev) es)
    (h : Machine.run (Orchestrator.step registry record settings)
      (created org_id requested incremental prev) es = some o) :
    Inv registry record settings K o :=
  Machine.inv_of_run_along (fun hI hC hs ↦ Inv.step hI hC hs) hC h (Inv.created ..)

/-- The clearance that asks for nothing. -/
def bookkeeping : Clearance where
  clear _ _ _ := True
  mono _ h := h
  wanted _ := True

/-- Every step respects it, so its invariant holds in every run. -/
theorem respects_bookkeeping (o : Orchestrator) (e : EngineEvent) :
    Respects registry record settings bookkeeping o e :=
  ⟨fun _ _ _ _ _ _ _ _ _ ↦ ⟨trivial, fun _ _ _ _ ↦ ⟨fun _ ↦ trivial, trivial⟩⟩,
    fun _ _ _ _ _ _ ↦ ⟨trivial, fun _ ↦ trivial⟩⟩

end Orchestrator

end Sentrik
