import Sentrik.Orchestration.FrozenChecks

/-!
# Which check a step was planned for

A plan step stores the name and the class of a check and nothing else of it. Execution resolves the
name — a built-in check first, then the first declarative one — and a finding is credited to the
reference under that name — a built-in one first, then that of the **last** declarative check
(`_skill_ref_for`). Planning, though, goes over all checks, so two of one name both get steps.

`assigned` lists the steps a step of the machine creates, with the checks it creates them for;
`provenance_of_unambiguous`: in a run that plans for no check whose name another one has, every step
executes the check it was planned for, and is credited with the reference of that check.

The engine keeps the references from its last call of `_declaratives`, which was after planning; they
are read here in any state that follows.
-/

namespace Sentrik

/-- `app.__version__`, which is the version of the built-in checks. -/
def app_version : String := "0.1.0"

/-- The provenance reference of a check. -/
def Check.reference : Check → String
  | builtin c => c.name ++ "@builtin#" ++ app_version
  | declarative d => d.manifest.skill_ref

/-- The references by name: a dictionary in which a later check overwrites an earlier one. -/
def _skill_refs (declaratives : List DeclarativeCheck) (check_name : String) : Option String :=
  (declaratives.reverse.find? (·.name == check_name)).map (·.manifest.skill_ref)

def _skill_ref_for (registry : _Registry) (declaratives : List DeclarativeCheck)
    (check_name : String) : String :=
  if check_name = "" then ""
  else if (registry.get check_name).isSome then check_name ++ "@builtin#" ++ app_version
  else (_skill_refs declaratives check_name).getD (check_name ++ "@?#unknown")

/-- The reference of a loaded check names its row: name, version, hash of the content. -/
theorem skill_ref_of_load [UnicodeTables] {rows : List AgentSkill} {org_id : ℕ} {d : DeclarativeCheck}
    (hd : d ∈ load_declarative_checks rows org_id) : ∃ row ∈ rows, row.enabled = true ∧
      d.name = row.name ∧ d.manifest.version = row.version ∧
        d.manifest.skill_ref = skill_ref row.name row.version row.manifest := by
  obtain ⟨row, hrow, hbuild⟩ := List.mem_filterMap.1 hd
  rw [_manifest_to_check] at hbuild
  split at hbuild
  next henabled =>
    refine ⟨row, List.mem_of_mem_filter hrow, henabled.2, ?_⟩
    rw [build_declarative_check] at hbuild
    split at hbuild
    · obtain rfl := Option.some.inj hbuild
      exact ⟨rfl, rfl, rfl⟩
    · cases hbuild
  next => cases hbuild

/-! ### Ambiguity -/

/-- No other check has the name of this one. -/
def Unambiguous (registry : _Registry) (declaratives : List DeclarativeCheck) (c : Check) : Prop :=
  c.name ≠ "" ∧
    match c with
    | .builtin _ => True
    | .declarative d => registry.get d.name = none ∧ ∀ d' ∈ declaratives, d'.name = d.name → d' = d

instance (registry : _Registry) (declaratives : List DeclarativeCheck) (c : Check) :
    Decidable (Unambiguous registry declaratives c) := by
  unfold Unambiguous
  cases c <;> infer_instance

section

variable {registry : _Registry} {declaratives : List DeclarativeCheck}

/-- The only one of its name is found, from either end. -/
theorem find?_eq_some_of_only {l : List DeclarativeCheck} {d : DeclarativeCheck} (hd : d ∈ l)
    (honly : ∀ d' ∈ l, d'.name = d.name → d' = d) : l.find? (·.name == d.name) = some d := by
  cases h : l.find? (·.name == d.name) with
  | none =>
    have hne := List.find?_eq_none.1 h d hd
    exact absurd (beq_self_eq_true _) hne
  | some d' =>
    have hname := List.find?_some h
    rw [honly d' (List.mem_of_find?_eq_some h) (beq_iff_eq.1 hname)]

/-- **An unambiguous name resolves to its check.** -/
theorem resolve_of_unambiguous {c : Check} (hc : c ∈ allChecks registry declaratives)
    (h : Unambiguous registry declaratives c) :
    _resolve_check registry c.name c.check_class declaratives = some c := by
  rcases mem_allChecks.1 hc with ⟨b, hb, rfl⟩ | ⟨d, hd, rfl⟩
  · have hname : b.name = (Check.builtin b).name := rfl
    rw [_resolve_check_builtin hb hname, if_neg h.1]
  · obtain ⟨hname, hnone, honly⟩ := h
    change d.name ≠ "" at hname
    show _resolve_check registry d.name d._class declaratives = _
    rw [_resolve_check, if_neg hname, hnone, find?_eq_some_of_only hd honly]

/-- **An unambiguous name is credited with the reference of its check.** -/
theorem skill_ref_for_of_unambiguous {c : Check} (hc : c ∈ allChecks registry declaratives)
    (h : Unambiguous registry declaratives c) :
    _skill_ref_for registry declaratives c.name = c.reference := by
  rcases mem_allChecks.1 hc with ⟨b, hb, rfl⟩ | ⟨d, hd, rfl⟩
  · have hget : registry.get (Check.builtin b).name = some b := _Registry.get_eq_some_iff.2 ⟨hb, rfl⟩
    rw [_skill_ref_for, if_neg h.1, hget]
    rfl
  · obtain ⟨hname, hnone, honly⟩ := h
    have hlast : declaratives.reverse.find? (·.name == d.name) = some d :=
      find?_eq_some_of_only (List.mem_reverse.2 hd) fun d' hd' ↦ honly d' (List.mem_reverse.1 hd')
    change d.name ≠ "" at hname
    show _skill_ref_for registry declaratives d.name = _
    rw [_skill_ref_for, if_neg hname, hnone, _skill_refs, hlast]
    rfl

end

namespace Orchestrator

/-! ### Created steps -/

section

variable (registry : _Registry) (record : AuthorizationRecord) (settings : Settings)
variable [u : UnicodeTables]

/-- The rows planning and replanning can write now, each with the check it is for. -/
def candidates (o : Orchestrator) : EngineEvent → List (PlanStep × Check)
  | .main (.plan multi _ _) =>
    match o.main with
    | some m => ((offered settings o m).map _endpoint_view).flatMap fun ev ↦
        ((allChecks registry o._declaratives).filter fun c ↦
          Considers (effective record o.assessment) (_coerce_intensity record.intensity) multi ev c).map
            fun c ↦ (plannedRow (plannedStep ev c), c)
    | none => []
  | .main (.replan answer) =>
    match o.main with
    | some m => ((gaps registry record settings o m.declaratives answer.classes).take
        settings.replan_batch).map fun gap ↦ (gapRow registry m.declaratives gap, gap.2.2)
    | none => []
  | _ => []

/-- The steps created, by id, with the checks they are for. -/
def assigned (o : Orchestrator) (e : EngineEvent) (o' : Orchestrator) : List (ℕ × Check) :=
  (o'.steps.filter (o.nextId ≤ ·.id)).flatMap fun r ↦
    (candidates registry record settings o e).filterMap fun p ↦
      if { p.1 with id := r.id } = r then some (r.id, p.2) else none

/-- Planning and replanning write rows for unambiguous checks only. -/
def PlansUnambiguous (o : Orchestrator) (e : EngineEvent) : Prop :=
  ∀ p ∈ candidates registry record settings o e, Unambiguous registry o._declaratives p.2

instance (o : Orchestrator) (e : EngineEvent) :
    Decidable (PlansUnambiguous registry record settings o e) :=
  inferInstanceAs (Decidable (∀ p ∈ candidates registry record settings o e, _))

variable {registry record settings} {o o' : Orchestrator} {e : EngineEvent} {id : ℕ} {c : Check}

theorem mem_assigned : (id, c) ∈ assigned registry record settings o e o' ↔
    ∃ r ∈ o'.steps, o.nextId ≤ r.id ∧ r.id = id ∧
      ∃ row, (row, c) ∈ candidates registry record settings o e ∧ { row with id := r.id } = r := by
  rw [assigned, List.mem_flatMap]
  constructor
  · rintro ⟨r, hr, hmem⟩
    obtain ⟨hr, hfresh⟩ := List.mem_filter.1 hr
    obtain ⟨⟨row, c'⟩, hcand, hsome⟩ := List.mem_filterMap.1 hmem
    split at hsome
    next heq =>
      obtain ⟨hid, rfl⟩ := Prod.mk.inj (Option.some.inj hsome)
      exact ⟨r, hr, of_decide_eq_true hfresh, hid, row, hcand, heq⟩
    next => cases hsome
  · rintro ⟨r, hr, hfresh, rfl, row, hcand, heq⟩
    refine ⟨r, List.mem_filter.2 ⟨hr, decide_eq_true hfresh⟩, List.mem_filterMap.2 ⟨(row, c), hcand, ?_⟩⟩
    exact if_pos heq

/-- A gap is filled with the built-in check picked for its class. -/
theorem picked_of_gap {declaratives : List DeclarativeCheck} {classes : List String}
    {gap : ℕ × String × Check} (h : gap ∈ gaps registry record settings o declaratives classes) :
    ∃ b, _pick_check registry gap.2.1 = some b ∧ gap.2.2 = .builtin b := by
  obtain ⟨ep, -, h⟩ := List.mem_flatMap.1 h
  obtain ⟨cclass, -, h⟩ := List.mem_filterMap.1 h
  split at h
  · cases h
  obtain ⟨check, hcheck, h⟩ := Option.bind_eq_some_iff.1 h
  split at h
  · obtain rfl := Option.some.inj h
    rw [_resolve_check, if_pos rfl] at hcheck
    obtain ⟨b, hb, rfl⟩ := Option.map_eq_some_iff.1 hcheck
    exact ⟨b, hb, rfl⟩
  · cases h

/-- What a candidate writes into the row, and where its check is from. -/
theorem candidate_key {row : PlanStep} (h : (row, c) ∈ candidates registry record settings o e) :
    row.check_name = c.name ∧ row.check_class = c.check_class ∧
      c ∈ allChecks registry o._declaratives := by
  cases e with
  | main e =>
    cases e with
    | plan multi strategy order =>
      rw [candidates] at h
      split at h
      · obtain ⟨ev, -, h⟩ := List.mem_flatMap.1 h
        obtain ⟨c', hc', h⟩ := List.mem_map.1 h
        obtain ⟨rfl, rfl⟩ := Prod.mk.inj h
        exact ⟨rfl, rfl, List.mem_of_mem_filter hc'⟩
      · cases h
    | replan answer =>
      rw [candidates] at h
      split at h
      · obtain ⟨gap, hgap, h⟩ := List.mem_map.1 h
        obtain ⟨rfl, rfl⟩ := Prod.mk.inj h
        obtain ⟨b, hb, hcheck⟩ := picked_of_gap (List.mem_of_mem_take hgap)
        obtain ⟨hmem, hclass⟩ := _pick_check_mem hb
        refine ⟨rfl, ?_, ?_⟩
        · rw [hcheck]
          exact hclass.symm
        · rw [hcheck]
          exact mem_allChecks.2 (Or.inl ⟨b, hmem, rfl⟩)
      · cases h
    | _ => cases h
  | _ => cases h

/-! ### The invariant -/

/-- The check of a created step is settled: it is a built-in one with a name, or it is in the frozen list
and the only one of its name. -/
def Settled (registry : _Registry) (o : Orchestrator) : Check → Prop
  | .builtin b => b ∈ registry.all ∧ b.name ≠ ""
  | .declarative d => o.assessment.skill_snapshot ≠ [] ∧ d ∈ o._declaratives ∧
      Unambiguous registry o._declaratives (.declarative d)

theorem Settled.mem (h : Settled registry o c) : c ∈ allChecks registry o._declaratives := by
  cases c with
  | builtin b => exact mem_allChecks.2 (Or.inl ⟨b, h.1, rfl⟩)
  | declarative d => exact mem_allChecks.2 (Or.inr ⟨d, h.2.1, rfl⟩)

theorem Settled.unambiguous (h : Settled registry o c) : Unambiguous registry o._declaratives c := by
  cases c with
  | builtin b => exact ⟨h.2, trivial⟩
  | declarative d => exact h.2.2

/-- A frozen list stays as it is. -/
theorem Settled.move (h : Settled registry o c) (hmove : Move registry record settings o e o') :
    Settled registry o' c := by
  cases c with
  | builtin b => exact h
  | declarative d =>
    obtain ⟨hne, hd, hunambiguous⟩ := h
    have hsnapshot := frozen_of_move hmove hne
    have hlist : o'._declaratives = o._declaratives := by
      rw [_declaratives, _declaratives, hsnapshot, if_pos hne, if_pos hne]
    rw [Settled, hsnapshot, hlist]
    exact ⟨hne, hd, hunambiguous⟩

/-- Once the list has been read, its checks are settled. -/
theorem settled_of_freeze (hmem : c ∈ allChecks registry o._declaratives)
    (h : Unambiguous registry o._declaratives c)
    (hsnapshot : o'.assessment.skill_snapshot = o.freeze.assessment.skill_snapshot) :
    Settled registry o' c := by
  rcases mem_allChecks.1 hmem with ⟨b, hb, rfl⟩ | ⟨d, hd, rfl⟩
  · exact ⟨hb, h.1⟩
  · have hlist : o'._declaratives = o._declaratives := by
      have hdecls := declsOf_declaratives o'
      rw [DeclsOf, hsnapshot] at hdecls
      refine (DeclsOf.freeze hdecls).resolve_right fun hnil ↦ ?_
      rw [hnil.1] at hd
      cases hd
    rw [Settled, hlist, hsnapshot]
    refine ⟨fun hnil ↦ ?_, hd, h⟩
    by_cases hold : o.assessment.skill_snapshot = []
    · rw [freeze, if_neg (not_not.2 hold)] at hnil
      have hempty : o._declaratives = [] := List.map_eq_nil_iff.1 hnil
      rw [hempty] at hd
      cases hd
    · rw [freeze_of_ne_nil hold] at hnil
      exact hold hnil

/-- **The invariant** of a created step: whoever holds it holds the name and the class of its check, and
its agents run that check. -/
structure Tracked (registry : _Registry) (o : Orchestrator) (id : ℕ) (c : Check) : Prop where
  lt : id < o.nextId
  rows : ∀ r ∈ o.steps, r.id = id → r.check_name = c.name ∧ r.check_class = c.check_class
  holders : ∀ r ∈ o.holders, r.id = id → r.check_name = c.name ∧ r.check_class = c.check_class
  tasks : ∀ t ∈ o.tasks, t.step.id = id → t.check = c
  invocations : ∀ v ∈ o.invocations, v.step.id = id → v.step.check_name = c.name ∧ v.check = c
  settled : Settled registry o c

/-- **Where a task comes from**: it was there, or it is new and runs what its step resolves to — for a
step somebody held, or for one that was created for the check picked for its class. -/
theorem task_of_move (h : Move registry record settings o e o') {t : AgentTask} (ht : t ∈ o'.tasks) :
    (∃ t₀ ∈ o.tasks, SameJob t₀ t) ∨
      (t.step ∈ o.holders ∧
        _resolve_check registry t.step.check_name t.step.check_class o._declaratives = some t.check) ∨
      ∃ answer m, e = .main (.replan answer) ∧ o.main = some m ∧ t.step ∈ o'.steps ∧
        o.nextId ≤ t.step.id ∧
        _resolve_check registry t.step.check_name t.step.check_class m.declaratives = some t.check := by
  have hkept : t ∈ o.tasks → ∃ t₀ ∈ o.tasks, SameJob t₀ t := fun ht ↦ ⟨t, ht, .refl t⟩
  have hheld : ∀ {m : Main}, o.main = some m → ∀ {r}, r ∈ m.pc.copies → r ∈ o.holders :=
    fun main _ hr ↦
      mem_holders.2 (Or.inl (mem_copies.2 (Or.inl ⟨_, main, List.mem_append_right _ hr⟩)))
  cases h with
  | control control => exact Or.inl (control.jobs t ht)
  | planned main pc =>
    rw [_phase_planning, freeze_eq] at ht
    exact Or.inl (hkept ht)
  | @judged m main pc =>
    have htasks : (_phase_policy registry record settings o m).tasks = o.tasks := by
      have hfrozen := @freeze_judgeAll registry record settings _ o (underReview settings o m)
      have hsame : (judgeAll registry record settings o (underReview settings o m)).freeze.tasks =
          o.tasks := by rw [hfrozen, freeze_eq]
      rw [← hsame, _phase_policy]
      dsimp only
      split_ifs <;> rfl
    rw [htasks] at ht
    exact Or.inl (hkept ht)
  | polled main pc =>
    rw [_await_step_approvals] at ht
    split at ht <;> exact Or.inl (hkept ht)
  | takes main pc => exact Or.inl (hkept ht)
  | @dispatched m steps tasks main pc agents =>
    rcases List.mem_append.1 ht with ht | ht
    · rw [freeze_eq] at ht
      exact Or.inl (hkept ht)
    · obtain ⟨hstep, -, hresolve⟩ := agentsFor_mem agents ht
      exact Or.inr (Or.inl ⟨hheld main (by rw [pc]; exact hstep), hresolve⟩)
  | settled task state control => exact Or.inl (control.jobs t ht)
  | @replanned m iteration answer tasks main pc goes order agents =>
    rcases List.mem_append.1 ht with ht | ht
    · exact Or.inl (hkept ht)
    · obtain ⟨hstep, -, hresolve⟩ := agentsFor_mem agents ht
      obtain ⟨r, -, i, -, heq⟩ := mem_numbered hstep
      refine Or.inr (Or.inr ⟨answer, m, rfl, main, List.mem_append_right _ hstep, ?_, hresolve⟩)
      rw [heq]
      exact Nat.le_add_right _ _
  | began execution =>
    rw [execute_approved_steps] at ht
    split_ifs at ht <;> exact Or.inl (hkept ht)
  | @executed j x steps tasks execution pc agents =>
    rcases List.mem_append.1 ht with ht | ht
    · rw [freeze_eq] at ht
      exact Or.inl (hkept ht)
    · obtain ⟨hstep, -, hresolve⟩ := agentsFor_mem agents ht
      refine Or.inr (Or.inl ⟨mem_holders.2 (Or.inl (mem_copies.2 (Or.inr ⟨x, ?_, ?_⟩))), hresolve⟩)
      · exact List.mem_of_getElem? execution
      · rw [pc]
        exact hstep
  | invoked task control => exact Or.inl (control.jobs t ht)
  | approved held control => exact Or.inl (control.jobs t ht)
  | denied held control => exact Or.inl (control.jobs t ht)
  | cancelled cancels control => exact Or.inl (control.jobs t ht)
  | cleared control => exact Or.inl (control.jobs t ht)

/-- A check is run by an agent. -/
theorem invocation_of_move (h : Move registry record settings o e o') {v : Invocation}
    (hv : v ∈ o'.invocations) :
    v ∈ o.invocations ∨ ∃ t ∈ o.tasks, t.step = v.step ∧ t.check = v.check := by
  cases h with
  | control control => exact Or.inl (control.invocations ▸ hv)
  | planned main pc =>
    rw [_phase_planning, freeze_eq] at hv
    exact Or.inl hv
  | @judged m main pc =>
    have hsame : (_phase_policy registry record settings o m).invocations = o.invocations := by
      have hfrozen := @freeze_judgeAll registry record settings _ o (underReview settings o m)
      have hjudged : (judgeAll registry record settings o (underReview settings o m)).freeze.invocations =
          o.invocations := by rw [hfrozen, freeze_eq]
      rw [← hjudged, _phase_policy]
      dsimp only
      split_ifs <;> rfl
    exact Or.inl (hsame ▸ hv)
  | polled main pc =>
    rw [_await_step_approvals] at hv
    split at hv <;> exact Or.inl hv
  | takes main pc => exact Or.inl hv
  | dispatched main pc agents =>
    rw [freeze_eq] at hv
    exact Or.inl hv
  | settled task state control => exact Or.inl (control.invocations ▸ hv)
  | replanned main pc goes order agents => exact Or.inl hv
  | began execution =>
    rw [execute_approved_steps] at hv
    split_ifs at hv <;> exact Or.inl hv
  | executed execution pc agents =>
    rw [freeze_eq] at hv
    exact Or.inl hv
  | @invoked i t o₁ task control =>
    rcases List.mem_append.1 hv with hv | hv
    · exact Or.inl (control.invocations ▸ hv)
    · obtain rfl := List.mem_singleton.1 hv
      exact Or.inr ⟨t, List.mem_of_getElem? task, rfl, rfl⟩
  | approved held control | denied held control => exact Or.inl (control.invocations ▸ hv)
  | cancelled cancels control => exact Or.inl (control.invocations ▸ hv)
  | cleared control => exact Or.inl (control.invocations ▸ hv)

/-- **What is tracked stays tracked.** -/
theorem Tracked.move (h : Tracked registry o id c) (hmove : Move registry record settings o e o') :
    Tracked registry o' id c := by
  have hrows : ∀ r ∈ o'.steps, r.id = id → r.check_name = c.name ∧ r.check_class = c.check_class := by
    intro r hr hid
    rcases (origin_of_move hmove hr).key with ⟨r₀, hr₀, hid₀, hkey⟩ | hfresh
    · obtain ⟨-, hclass, hname⟩ : r₀.endpoint_id = r.endpoint_id ∧ r₀.check_class = r.check_class ∧
          r₀.check_name = r.check_name := by simpa [PlanStep.key] using hkey
      rw [← hclass, ← hname]
      exact h.rows r₀ hr₀ (hid₀.trans hid)
    · exact absurd h.lt (not_lt.2 (hid ▸ hfresh))
  refine ⟨h.lt.trans_le (nextId_of_move hmove), hrows, fun r hr hid ↦ ?_, fun t ht hid ↦ ?_,
    fun v hv hid ↦ ?_, h.settled.move hmove⟩
  · rcases holders_of_move hmove hr with hr | hr
    · exact h.holders r hr hid
    · exact hrows r hr hid
  · rcases task_of_move hmove ht with ⟨t₀, ht₀, hstep, -, hcheck⟩ | ⟨hheld, hresolve⟩ |
      ⟨answer, m, -, -, -, hfresh, -⟩
    · rw [hcheck]
      exact h.tasks t₀ ht₀ (by rw [← hstep]; exact hid)
    · obtain ⟨hname, hclass⟩ := h.holders t.step hheld hid
      rw [hname, hclass, resolve_of_unambiguous h.settled.mem h.settled.unambiguous] at hresolve
      exact (Option.some.inj hresolve).symm
    · exact absurd h.lt (not_lt.2 (hid ▸ hfresh))
  · rcases invocation_of_move hmove hv with hv | ⟨t, ht, hstep, hcheck⟩
    · exact h.invocations v hv hid
    · rw [← hstep] at hid ⊢
      rw [← hcheck]
      exact ⟨(h.holders t.step (mem_holders.2 (Or.inr ⟨t, ht, rfl⟩)) hid).1, h.tasks t ht hid⟩

/-! ### Created steps are assigned, and tracked -/

/-- A step that is stored afterwards was stored before, or its row is one of the candidates. -/
theorem created_of_move (h : Move registry record settings o e o') {s : PlanStep} (hs : s ∈ o'.steps) :
    (∃ r ∈ o.steps, r.id = s.id) ∨
      ∃ row c, (row, c) ∈ candidates registry record settings o e ∧ { row with id := s.id } = s := by
  have hkept : s ∈ o.steps → ∃ r ∈ o.steps, r.id = s.id := fun hs ↦ ⟨s, hs, rfl⟩
  cases h with
  | control control => exact Or.inl (hkept (control.steps ▸ hs))
  | @planned m multi strategy order main pc =>
    rw [_phase_planning, freeze_eq] at hs
    rcases List.mem_append.1 hs with hs | hs
    · exact Or.inl (hkept hs)
    · obtain ⟨r, hr, i, -, rfl⟩ := mem_numbered hs
      obtain ⟨p, hp, rfl⟩ := List.mem_map.1 hr
      rw [planOf, (perm_rerank_plan _ _).mem_iff, (perm_apply_strategy _ _).mem_iff,
        mem_build_plan_iff] at hp
      obtain ⟨ev, hev, c, hc, hconsiders, rfl⟩ := hp
      refine Or.inr ⟨plannedRow (plannedStep ev c), c, ?_, rfl⟩
      rw [candidates, main]
      exact List.mem_flatMap.2 ⟨ev, hev, List.mem_map.2
        ⟨c, List.mem_filter.2 ⟨hc, decide_eq_true hconsiders⟩, rfl⟩⟩
  | @judged m main pc =>
    rw [phase_policy_steps] at hs
    obtain ⟨r, hr, rfl⟩ := List.mem_map.1 hs
    refine Or.inl ⟨r, hr, ?_⟩
    split
    · exact (judge_same registry (_make_guard record settings) settings o._declaratives r).1.symm
    · rfl
  | polled main pc =>
    rw [await_step_approvals_steps] at hs
    exact Or.inl (hkept hs)
  | takes main pc => exact Or.inl (hkept hs)
  | dispatched main pc agents =>
    rw [freeze_eq] at hs
    exact Or.inl (hkept hs)
  | settled task state control =>
    rw [control.steps] at hs
    obtain ⟨r, hr, rfl⟩ := List.mem_map.1 hs
    refine Or.inl ⟨r, hr, ?_⟩
    split <;> rfl
  | @replanned m iteration answer tasks main pc goes order agents =>
    rcases List.mem_append.1 hs with hs | hs
    · exact Or.inl (hkept hs)
    · obtain ⟨r, hr, i, -, rfl⟩ := mem_numbered hs
      obtain ⟨gap, hgap, rfl⟩ := List.mem_map.1 hr
      refine Or.inr ⟨gapRow registry m.declaratives gap, gap.2.2, ?_, rfl⟩
      rw [candidates, main]
      exact List.mem_map.2 ⟨gap, hgap, rfl⟩
  | began execution =>
    rw [execute_approved_steps] at hs
    split at hs
    · exact Or.inl (hkept hs)
    split at hs
    · obtain ⟨r, hr, rfl⟩ := List.mem_map.1 hs
      refine Or.inl ⟨r, hr, ?_⟩
      split <;> rfl
    · exact Or.inl (hkept hs)
  | executed execution pc agents =>
    rw [freeze_eq] at hs
    exact Or.inl (hkept hs)
  | invoked task control => exact Or.inl (hkept (control.steps ▸ hs))
  | approved held control | denied held control =>
    rw [control.steps] at hs
    obtain ⟨r, hr, rfl⟩ := List.mem_map.1 hs
    refine Or.inl ⟨r, hr, ?_⟩
    split <;> rfl
  | cancelled cancels control => exact Or.inl (hkept (control.steps ▸ hs))
  | cleared control =>
    rw [control.steps] at hs
    cases hs

/-- **Every stored step has been assigned a check**, now or when it was created. -/
theorem assigned_of_move (hI : Inv registry record settings bookkeeping o)
    (h : Move registry record settings o e o') {s : PlanStep} (hs : s ∈ o'.steps) :
    (∃ r ∈ o.steps, r.id = s.id) ∨ ∃ c, (s.id, c) ∈ assigned registry record settings o e o' := by
  rcases Nat.lt_or_ge s.id o.nextId with hlt | hge
  · rcases (origin_of_move h hs).key with ⟨r, hr, hid, -⟩ | hfresh
    · exact Or.inl ⟨r, hr, hid⟩
    · exact absurd hlt (not_lt.2 hfresh)
  · rcases created_of_move h hs with ⟨r, hr, hid⟩ | ⟨row, c, hcand, heq⟩
    · exact absurd (hid ▸ hI.fresh r hr) (not_lt.2 hge)
    · exact Or.inr ⟨c, mem_assigned.2 ⟨s, hs, hge, rfl, row, hcand, heq⟩⟩

/-- Both planning and replanning settle the checks they assign. -/
theorem settled_of_candidate {row : PlanStep} (hC : PlansUnambiguous registry record settings o e)
    (h : step registry record settings o e = some o')
    (hcand : (row, c) ∈ candidates registry record settings o e) : Settled registry o' c := by
  obtain ⟨-, -, hmem⟩ := candidate_key hcand
  have hunambiguous := hC _ hcand
  cases e with
  | main e =>
    cases e with
    | plan multi strategy order =>
      exact settled_of_freeze hmem hunambiguous (snapshot_of_reads h rfl)
    | replan answer =>
      rw [candidates] at hcand
      split at hcand
      · obtain ⟨gap, hgap, heq⟩ := List.mem_map.1 hcand
        obtain ⟨rfl, rfl⟩ := Prod.mk.inj heq
        obtain ⟨b, hb, hcheck⟩ := picked_of_gap (List.mem_of_mem_take hgap)
        rw [hcheck] at hunambiguous ⊢
        exact ⟨(_pick_check_mem hb).1, hunambiguous.1⟩
      · cases hcand
    | _ => cases hcand
  | _ => cases hcand

/-- **What is assigned is tracked.** -/
theorem tracked_of_assigned (hI' : Inv registry record settings bookkeeping o') (hK : o.Keyed)
    (hV : ∀ v ∈ o.invocations, v.step.id < o.nextId) (hC : PlansUnambiguous registry record settings o e)
    (h : step registry record settings o e = some o')
    (hassigned : (id, c) ∈ assigned registry record settings o e o') : Tracked registry o' id c := by
  obtain ⟨s, hs, hfresh, rfl, row, hcand, heq⟩ := mem_assigned.1 hassigned
  have hmove := move_of_step h
  obtain ⟨hname, hclass, -⟩ := candidate_key hcand
  have hsettled := settled_of_candidate hC h hcand
  have hkey : s.check_name = c.name ∧ s.check_class = c.check_class := by
    rw [← heq]
    exact ⟨hname, hclass⟩
  have hrows : ∀ r ∈ o'.steps, r.id = s.id → r.check_name = c.name ∧ r.check_class = c.check_class := by
    intro r hr hid
    rw [List.inj_on_of_nodup_map hI'.nodup hr hs hid]
    exact hkey
  -- whoever held a step before held an older one
  have hold : ∀ r ∈ o.holders, r.id ≠ s.id := fun r hr hid ↦
    absurd (hK r hr).1 (not_lt.2 (hid ▸ hfresh))
  refine ⟨hI'.fresh s hs, hrows, fun r hr hid ↦ ?_, fun t ht hid ↦ ?_, fun v hv hid ↦ ?_, hsettled⟩
  · rcases holders_of_move hmove hr with hr | hr
    · exact absurd hid (hold r hr)
    · exact hrows r hr hid
  · rcases task_of_move hmove ht with ⟨t₀, ht₀, hstep, -, -⟩ | ⟨hheld, -⟩ |
      ⟨answer, m, rfl, main, hstep, -, hresolve⟩
    · exact absurd (hstep ▸ hid) (hold t₀.step (mem_holders.2 (Or.inr ⟨t₀, ht₀, rfl⟩)))
    · exact absurd hid (hold t.step hheld)
    · -- replanning: the step is for a built-in check, which its name finds in every list
      rw [candidates, main] at hcand
      obtain ⟨gap, hgap, hpair⟩ := List.mem_map.1 hcand
      obtain ⟨-, rfl⟩ := Prod.mk.inj hpair
      obtain ⟨b, hb, hcheck⟩ := picked_of_gap (List.mem_of_mem_take hgap)
      rw [hcheck] at hsettled ⊢
      obtain ⟨hmem, hne⟩ := hsettled
      have hstepname : b.name = t.step.check_name := by
        rw [(hrows t.step hstep hid).1, hcheck]
        rfl
      rw [_resolve_check_builtin hmem hstepname, ← hstepname, if_neg hne] at hresolve
      exact (Option.some.inj hresolve).symm
  · rcases invocation_of_move hmove hv with hv | ⟨t, ht, hstep, -⟩
    · exact absurd (hV v hv) (not_lt.2 (hid ▸ hfresh))
    · exact absurd (hstep ▸ hid) (hold t.step (mem_holders.2 (Or.inr ⟨t, ht, rfl⟩)))

/-! ### Runs -/

/-- All assignments of a run. -/
def assignments (registry : _Registry) (record : AuthorizationRecord) (settings : Settings)
    (o : Orchestrator) (es : List EngineEvent) : List (ℕ × Check) :=
  Machine.trace (step registry record settings) (assigned registry record settings) o es

/-- What holds of the assignments made so far. -/
structure Provenance (registry : _Registry) (record : AuthorizationRecord) (settings : Settings)
    (o : Orchestrator) (w : List (ℕ × Check)) : Prop where
  inv : Inv registry record settings bookkeeping o
  keyed : o.Keyed
  invoked : ∀ v ∈ o.invocations, v.step.id < o.nextId
  complete : ∀ s ∈ o.steps, ∃ c, (s.id, c) ∈ w
  tracked : ∀ p ∈ w, Tracked registry o p.1 p.2

theorem Provenance.step {w : List (ℕ × Check)} (hP : Provenance registry record settings o w)
    (hC : PlansUnambiguous registry record settings o e)
    (h : Orchestrator.step registry record settings o e = some o') :
    Provenance registry record settings o' (w ++ assigned registry record settings o e o') := by
  have hmove := move_of_step h
  have hI' := hP.inv.step (respects_bookkeeping _ _) h
  refine ⟨hI', hP.keyed.move hI' hmove, fun v hv ↦ ?_, fun s hs ↦ ?_, fun p hp ↦ ?_⟩
  · refine Nat.lt_of_lt_of_le ?_ (nextId_of_move hmove)
    rcases invocation_of_move hmove hv with hv | ⟨t, ht, hstep, -⟩
    · exact hP.invoked v hv
    · exact hstep ▸ (hP.keyed t.step (mem_holders.2 (Or.inr ⟨t, ht, rfl⟩))).1
  · rcases assigned_of_move hP.inv hmove hs with ⟨r, hr, hid⟩ | ⟨c, hc⟩
    · obtain ⟨c, hc⟩ := hP.complete r hr
      exact ⟨c, List.mem_append_left _ (hid ▸ hc)⟩
    · exact ⟨c, List.mem_append_right _ hc⟩
  · rcases List.mem_append.1 hp with hp | hp
    · exact (hP.tracked p hp).move hmove
    · exact tracked_of_assigned hI' hP.keyed hP.invoked hC h hp

/-- **Provenance is exact**, in every run that plans for unambiguous checks only: every stored step has
been assigned a check, and whenever a check is run for a step, it is the one the step has been assigned,
and what it finds is credited with the reference of that one. -/
theorem provenance_of_unambiguous {org_id : ℕ} {requested : List String} {incremental : Bool}
    {prev : Option (List Text)} {es : List EngineEvent}
    (hes : Machine.Along (step registry record settings) (PlansUnambiguous registry record settings)
      (created org_id requested incremental prev) es)
    (h : Machine.run (step registry record settings) (created org_id requested incremental prev) es =
      some o) :
    (∀ s ∈ o.steps, ∃ c, (s.id, c) ∈ assignments registry record settings
        (created org_id requested incremental prev) es) ∧
      ∀ p ∈ assignments registry record settings (created org_id requested incremental prev) es,
        ∀ v ∈ o.invocations, v.step.id = p.1 →
          v.check = p.2 ∧
            _skill_ref_for registry o._declaratives v.step.check_name = p.2.reference := by
  have hP : Provenance registry record settings o (assignments registry record settings
      (created org_id requested incremental prev) es) := by
    refine Machine.inv_of_trace_along (fun hP hC hs ↦ hP.step hC hs) hes h
      ⟨Inv.created .., fun r hr ↦ absurd hr List.not_mem_nil, ?_, ?_, ?_⟩
    · exact fun v hv ↦ absurd hv List.not_mem_nil
    · exact fun s hs ↦ absurd hs List.not_mem_nil
    · exact fun p hp ↦ absurd hp List.not_mem_nil
  refine ⟨hP.complete, fun p hp v hv hid ↦ ?_⟩
  have htracked := hP.tracked p hp
  obtain ⟨hname, hcheck⟩ := htracked.invocations v hv hid
  refine ⟨hcheck, ?_⟩
  rw [hname]
  exact skill_ref_for_of_unambiguous htracked.settled.mem htracked.settled.unambiguous

end

end Orchestrator

section

attribute [local instance] asciiTables

def skillVersion (version intensity digest : String) : AgentSkill where
  name := "cors.origin"
  version
  check_class := "cors"
  manifest := { intensity, detector := some "header_reflects", digest }

/-- A run with these skills up to the point where the agent of this index runs its check. -/
def upToCheck (skills : List AgentSkill) (i : ℕ) : List EngineEvent :=
  .register skills :: throughPolicy [sampleEndpoint] ++ throughDispatch ++
    [.task i (.begin false), .task i (.act true)]

def upToCheckRun (skills : List AgentSkill) (i : ℕ) : Option Orchestrator :=
  Machine.run (Orchestrator.step builtinRegistry (scanRecord ["cors"]) {}) (.created 1 [] false none)
    (upToCheck skills i)

def upToCheckAssignments (skills : List AgentSkill) (i : ℕ) : List (ℕ × Check) :=
  Orchestrator.assignments builtinRegistry (scanRecord ["cors"]) {} (.created 1 [] false none)
    (upToCheck skills i)

def versionSkills : List AgentSkill :=
  [skillVersion "1.0.0" "passive" "0123456789", skillVersion "2.0.0" "safe_active" "abcdef0123"]

theorem versionsRun : ∃ o, upToCheckRun versionSkills 1 = some o ∧
    (∃ p ∈ upToCheckAssignments versionSkills 1, ∃ v ∈ o.invocations,
      v.step.id = p.1 ∧ v.check ≠ p.2) ∧
      ∃ v ∈ o.invocations,
        _skill_ref_for builtinRegistry o._declaratives v.step.check_name ≠ v.check.reference := by
  have hsome : (upToCheckRun versionSkills 1).any (fun o ↦ decide ((∃ p ∈ upToCheckAssignments
      versionSkills 1, ∃ v ∈ o.invocations, v.step.id = p.1 ∧ v.check ≠ p.2) ∧ ∃ v ∈ o.invocations,
        _skill_ref_for builtinRegistry o._declaratives v.step.check_name ≠ v.check.reference)) =
      true := by decide +kernel
  obtain ⟨o, ho, h⟩ := Option.any_eq_true _ _ |>.1 hsome
  exact ⟨o, ho, of_decide_eq_true h⟩

/-- Two versions of one skill both get a step. The step of the second one runs the check of the first,
and what that finds is credited to the second. -/
theorem versions_not_exact :
    (¬∀ (es : List EngineEvent) (o : Orchestrator),
      Machine.run (Orchestrator.step builtinRegistry (scanRecord ["cors"]) {})
          (.created 1 [] false none) es = some o →
        ∀ p ∈ Orchestrator.assignments builtinRegistry (scanRecord ["cors"]) {}
            (.created 1 [] false none) es, ∀ v ∈ o.invocations, v.step.id = p.1 → v.check = p.2) ∧
      ¬∀ (es : List EngineEvent) (o : Orchestrator),
        Machine.run (Orchestrator.step builtinRegistry (scanRecord ["cors"]) {})
            (.created 1 [] false none) es = some o →
          ∀ v ∈ o.invocations,
            _skill_ref_for builtinRegistry o._declaratives v.step.check_name = v.check.reference := by
  obtain ⟨o, ho, ⟨p, hp, v, hv, hid, hcheck⟩, v', hv', hcredit⟩ := versionsRun
  exact ⟨fun h ↦ hcheck (h _ o ho p hp v hv hid), fun h ↦ hcredit (h _ o ho v' hv')⟩

theorem provenance_of_unambiguous_single :
    ∃ o, upToCheckRun [skillVersion "1.0.0" "passive" "0123456789"] 0 = some o ∧
      (∀ s ∈ o.steps,
        ∃ c, (s.id, c) ∈ upToCheckAssignments [skillVersion "1.0.0" "passive" "0123456789"] 0) ∧
        ∀ p ∈ upToCheckAssignments [skillVersion "1.0.0" "passive" "0123456789"] 0,
          ∀ v ∈ o.invocations, v.step.id = p.1 →
            v.check = p.2 ∧
              _skill_ref_for builtinRegistry o._declaratives v.step.check_name = p.2.reference := by
  have hsome : (upToCheckRun [skillVersion "1.0.0" "passive" "0123456789"] 0).isSome = true := by
    decide +kernel
  obtain ⟨o, ho⟩ := Option.isSome_iff_exists.1 hsome
  refine ⟨o, ho, Orchestrator.provenance_of_unambiguous ?_ ho⟩
  decide +kernel

end

end Sentrik
