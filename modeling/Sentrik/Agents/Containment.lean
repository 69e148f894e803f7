import Sentrik.Agents.Brain
import Sentrik.Checks.Builtin

/-!
# What a reply can do to a specialist

A specialist consults its brain and acts on the decision: it skips, or it sorts the parameters of its
endpoint by the order the decision names and runs its check. `Contained` says that the consultation ends
with an allowed action and that the action comes as far as the check, with nothing but the order of the
parameters changed.

`contained_iff` says which replies are contained. Three readings are outside every `try`: the usage a local
endpoint reports, the names in the order, and what the rule-based brain reads of the task.
-/

namespace Sentrik

/-- The part of a specialist that decisions change. -/
structure SpecialistCheckAgent where
  endpoint : Checks.EndpointView
  max_payloads : ℤ := 12
  _probes : ℕ := 0

/-- A value that can be the key of a dictionary. -/
def hashable : Json → Bool
  | .arr _ | .obj _ => false
  | _ => true

/-- A reply to one of the brains. -/
inductive BrainReply
  | llm (reply : LlmReply)
  | local_llm (reply : HttpReply)

section

variable (same : Json → Json → Bool)

/-- The position of a name in an order, read as a dictionary: the last one counts. `same` is the equality of
keys. -/
def rankOf (order : List Json) (name : Json) : ℕ :=
  ((order.zipIdx.reverse.find? fun e ↦ same e.1 name).map Prod.snd).getD 999

section

variable [u : UnicodeTables]

/-- Sort parameters by an order of their names. -/
def sortParameters (order : List Json) (parameters : List Dict) : Except Raised (List Dict) :=
  if order.all hashable = false then .error .TypeError
  else if parameters.all (fun p ↦ hashable (paramName p)) = false then .error .TypeError
  else .ok (parameters.insertionSort fun p q ↦ rankOf same order (paramName p) ≤
    rankOf same order (paramName q))

namespace SpecialistCheckAgent

/-- The parameters, in the order the decision names. -/
def ordered (agent : SpecialistCheckAgent) (decision : BrainDecision) : Except Raised (List Dict) :=
  match decision.params.get "param_order" with
  | .arr order =>
    if order.isEmpty then .ok agent.endpoint.parameters
    else sortParameters same order agent.endpoint.parameters
  | _ => .ok agent.endpoint.parameters

/-- What the agent does before its check: nothing when it skips. A second pass tries more payloads. -/
def _act (agent : SpecialistCheckAgent) (decision : BrainDecision) :
    Except Raised (Option SpecialistCheckAgent) :=
  if decision.action = "skip".toList then .ok none
  else (agent.ordered same decision).map fun parameters ↦ some {
    endpoint := { agent.endpoint with parameters }
    max_payloads := if 0 < agent._probes then min (agent.max_payloads * 2) 48 else agent.max_payloads
    _probes := agent._probes + 1 }

end SpecialistCheckAgent

variable [lib : StandardLibrary]

/-- A consultation of the brain the reply is for. -/
def consult (budget : Option LlmBudget) (task : BrainTask) :
    BrainReply → Except Raised (BrainDecision × Option LlmBudget)
  | .llm reply => LLMBrain.decide budget task reply
  | .local_llm reply => LocalLLMBrain.decide budget task reply

omit lib in
/-- A consultation returns an allowed action, and acting on it comes as far as the check with the parameters
permuted at most. -/
def Absorbed (task : BrainTask) (agent : SpecialistCheckAgent)
    (consulted : Except Raised (BrainDecision × Option LlmBudget)) : Prop :=
  ∃ decision budget, consulted = .ok (decision, budget) ∧ decision.action ∈ task.allowed_actions ∧
    ∃ acted, agent._act same decision = .ok acted ∧ ∀ agent' ∈ acted, ∃ parameters,
      agent'.endpoint = { agent.endpoint with parameters } ∧ parameters.Perm agent.endpoint.parameters

/-- **A reply is contained.** -/
def Contained (budget : Option LlmBudget) (task : BrainTask) (agent : SpecialistCheckAgent)
    (reply : BrainReply) : Prop :=
  Absorbed same task agent (consult budget task reply)

/-! ### The condition -/

omit u in
/-- The rule-based brain can read the task: a specialist's parameters are dictionaries whose names are
texts, and what remains of a coordinator's budget is a number. -/
def BrainTask.Readable (task : BrainTask) : Prop :=
  if "specialist".toList.isSuffixOf task.role then
    ∃ items, (task.context.getD "parameters" (.arr [])).iter = .ok items ∧
      ∀ item ∈ items, ∃ p name, item = .obj p ∧ paramName p = .str name
  else
    task.role = "coordinator".toList →
      match task.context.getD "budget_remaining" (.num "1".toList false) with
      | .bool _ | .num .. => True
      | _ => False

omit u lib in
/-- The agent can act on a decision: it skips, or the decision names no order, or the names in it and those
of the parameters can be keys of a dictionary. -/
def SpecialistCheckAgent.Sortable (agent : SpecialistCheckAgent) (decision : BrainDecision) : Prop :=
  decision.action = "skip".toList ∨
    ∀ order, decision.params.get "param_order" = .arr order → order ≠ [] →
      (∀ name ∈ order, hashable name = true) ∧
        ∀ p ∈ agent.endpoint.parameters, hashable (paramName p) = true

/-- The usage of a local endpoint's document is absent, or an object whose counts are absent or stand for
integers. -/
def Reported (data : Dict) : Prop :=
  (data.get "usage").truthy = true → ∃ fields : Dict, data.get "usage" = .obj fields ∧
    ∀ key ∈ ["prompt_tokens", "completion_tokens"], (fields.get key).truthy = true →
      ∃ n, lib.int (fields.get key) = .ok n

/-- Falling back on the rule-based brain works out. -/
def FallsBack (task : BrainTask) (agent : SpecialistCheckAgent) : Prop :=
  task.Readable ∧ ∀ decision, DeterministicBrain.decide task = .ok decision → agent.Sortable decision

/-- **The condition on a reply.** -/
def Digestible (budget : Option LlmBudget) (task : BrainTask) (agent : SpecialistCheckAgent)
    (reply : BrainReply) : Prop :=
  (∀ b ∈ budget, b.Comparable) ∧
    if spent budget = .ok true then FallsBack task agent
    else
      match reply with
      | .llm reply =>
        match LLMBrain.answer reply with
        | .error _ => FallsBack task agent
        | .ok (decision, input_tokens, output_tokens) =>
          agent.Sortable (LLMBrain.settle task decision input_tokens output_tokens)
      | .local_llm reply =>
        match LocalLLMBrain.answer reply with
        | .error _ => FallsBack task agent
        | .ok (data, decision) =>
          Reported data ∧ agent.Sortable (LocalLLMBrain.settle task decision 0 0)

end

variable {same} [u : UnicodeTables] {task : BrainTask} {agent : SpecialistCheckAgent}
variable {decision : BrainDecision}

/-! ### Acting -/

omit u in
theorem sortParameters_isOk {order : List Json} {parameters : List Dict} :
    (∃ l, sortParameters same order parameters = .ok l) ↔
      (∀ name ∈ order, hashable name = true) ∧ ∀ p ∈ parameters, hashable (paramName p) = true := by
  rw [sortParameters]
  split
  next horder =>
    refine iff_of_false (by rintro ⟨l, hl⟩; cases hl) ?_
    rintro ⟨hall, -⟩
    rw [List.all_eq_true.2 hall] at horder
    cases horder
  next horder =>
    have horder' := List.all_eq_true.1 (Bool.eq_true_of_not_eq_false horder)
    split
    next hnames =>
      refine iff_of_false (by rintro ⟨l, hl⟩; cases hl) ?_
      rintro ⟨-, hall⟩
      rw [List.all_eq_true.2 hall] at hnames
      cases hnames
    next hnames =>
      exact iff_of_true ⟨_, rfl⟩ ⟨horder', List.all_eq_true.1 (Bool.eq_true_of_not_eq_false hnames)⟩

omit u in
/-- **Sorting permutes.** -/
theorem perm_of_sortParameters {order : List Json} {parameters l : List Dict}
    (h : sortParameters same order parameters = .ok l) : l.Perm parameters := by
  rw [sortParameters] at h
  split at h
  · cases h
  split at h
  · cases h
  · exact Except.ok.inj h ▸ List.perm_insertionSort _ _

omit u in
theorem ordered_isOk : (∃ l, agent.ordered same decision = .ok l) ↔
    ∀ order, decision.params.get "param_order" = .arr order → order ≠ [] →
      (∀ name ∈ order, hashable name = true) ∧
        ∀ p ∈ agent.endpoint.parameters, hashable (paramName p) = true := by
  rw [SpecialistCheckAgent.ordered]
  cases decision.params.get "param_order" with
  | arr order =>
    cases order with
    | nil =>
      refine iff_of_true ⟨_, rfl⟩ fun order heq hne ↦ ?_
      cases heq
      exact absurd rfl hne
    | cons name rest =>
      refine (@sortParameters_isOk same (name :: rest) _).trans ⟨fun h order heq _ ↦ ?_, fun h ↦ ?_⟩
      · cases heq
        exact h
      · exact h _ rfl (List.cons_ne_nil _ _)
  | null | bool | num | str | obj =>
    refine iff_of_true ⟨_, rfl⟩ fun order heq ↦ ?_
    cases heq

omit u in
theorem perm_of_ordered {l : List Dict} (h : agent.ordered same decision = .ok l) :
    l.Perm agent.endpoint.parameters := by
  rw [SpecialistCheckAgent.ordered] at h
  split at h
  · split at h
    · exact Except.ok.inj h ▸ List.Perm.refl _
    · exact perm_of_sortParameters h
  · exact Except.ok.inj h ▸ List.Perm.refl _

omit u in
/-- When the agent can act on a decision. -/
theorem act_isOk : (∃ acted, agent._act same decision = .ok acted) ↔ agent.Sortable decision := by
  rw [SpecialistCheckAgent._act, SpecialistCheckAgent.Sortable]
  split
  next hskip => exact iff_of_true ⟨none, rfl⟩ (Or.inl hskip)
  next hskip =>
    rw [or_iff_right hskip, ← @ordered_isOk same]
    cases agent.ordered same decision with
    | error e => exact iff_of_false (by rintro ⟨l, hl⟩; cases hl) (by rintro ⟨l, hl⟩; cases hl)
    | ok l => exact iff_of_true ⟨_, rfl⟩ ⟨l, rfl⟩

omit u in
/-- Acting changes nothing but the order of the parameters. -/
theorem act_spec {acted : Option SpecialistCheckAgent} (h : agent._act same decision = .ok acted) :
    ∀ agent' ∈ acted, ∃ parameters, agent'.endpoint = { agent.endpoint with parameters } ∧
      parameters.Perm agent.endpoint.parameters := by
  intro agent' hagent
  rw [SpecialistCheckAgent._act] at h
  split at h
  · cases h
    cases hagent
  · cases hordered : agent.ordered same decision with
    | error e =>
      rw [hordered] at h
      cases h
    | ok parameters =>
      rw [hordered] at h
      cases h
      cases hagent
      exact ⟨parameters, rfl, perm_of_ordered hordered⟩

/-! ### Falling back -/

theorem scoredName_isOk {item : Json} : (∃ r, scoredName item = .ok r) ↔
    ∃ p name, item = .obj p ∧ paramName p = .str name := by
  rw [scoredName]
  cases item with
  | obj p =>
    simp only [Json.asDict, bind, Except.bind]
    cases hname : paramName p with
    | str name => exact iff_of_true ⟨_, rfl⟩ ⟨p, name, rfl, hname⟩
    | null | bool | num | arr | obj =>
      refine iff_of_false (by rintro ⟨r, hr⟩; cases hr) ?_
      rintro ⟨p', name, hp, hname'⟩
      cases hp
      rw [hname] at hname'
      cases hname'
  | null | bool | num | str | arr =>
    exact iff_of_false (by rintro ⟨r, hr⟩; cases hr) (by rintro ⟨p, name, hp, -⟩; cases hp)

theorem rank_params_isOk {params : Json} : (∃ order, _rank_params params = .ok order) ↔
    ∃ items, params.iter = .ok items ∧
      ∀ item ∈ items, ∃ p name, item = .obj p ∧ paramName p = .str name := by
  rw [_rank_params]
  cases params.iter with
  | error e => exact iff_of_false (by rintro ⟨r, hr⟩; cases hr) (by rintro ⟨items, hi, -⟩; cases hi)
  | ok items =>
    have hall : (∃ r, items.mapM scoredName = .ok r) ↔
        ∀ item ∈ items, ∃ p name, item = .obj p ∧ paramName p = .str name :=
      mapM_isOk.trans (forall₂_congr fun item _ ↦ scoredName_isOk)
    simp only [bind, Except.bind, Except.ok.injEq, exists_eq_left']
    rw [← hall]
    cases items.mapM scoredName with
    | error e => exact iff_of_false (by rintro ⟨r, hr⟩; cases hr) (by rintro ⟨r, hr⟩; cases hr)
    | ok r => exact iff_of_true ⟨_, rfl⟩ ⟨r, rfl⟩

/-- When the rule-based brain can decide. -/
theorem deterministic_isOk :
    (∃ decision, DeterministicBrain.decide task = .ok decision) ↔ task.Readable := by
  rw [DeterministicBrain.decide, BrainTask.Readable]
  split
  next hspecialist =>
    rw [← rank_params_isOk]
    cases _rank_params (task.context.getD "parameters" (.arr [])) with
    | error e => exact iff_of_false (by rintro ⟨r, hr⟩; cases hr) (by rintro ⟨r, hr⟩; cases hr)
    | ok r => exact iff_of_true ⟨_, rfl⟩ ⟨r, rfl⟩
  next =>
    split
    next hplanner =>
      refine iff_of_true ⟨_, rfl⟩ fun hcoordinator ↦ ?_
      rw [hplanner] at hcoordinator
      exact absurd hcoordinator (by decide)
    next =>
      split
      next hcoordinator =>
        cases task.context.getD "budget_remaining" (.num "1".toList false) with
        | bool b => exact iff_of_true (by cases b <;> exact ⟨_, rfl⟩) fun _ ↦ trivial
        | num rendering zero =>
          refine iff_of_true ?_ fun _ ↦ trivial
          simp only [atMostZero, bind, Except.bind]
          split <;> exact ⟨_, rfl⟩
        | null | str | arr | obj =>
          exact iff_of_false (by rintro ⟨r, hr⟩; cases hr) fun h ↦ h hcoordinator
      next hcoordinator =>
        refine iff_of_true ?_ fun h ↦ absurd h hcoordinator
        split <;> exact ⟨_, rfl⟩

/-- The rule-based brain chooses among the allowed actions. -/
theorem action_deterministic (h : DeterministicBrain.decide task = .ok decision)
    (hactions : task.allowed_actions ≠ []) : decision.action ∈ task.allowed_actions := by
  have hhead : task.allowed_actions.headD "proceed".toList ∈ task.allowed_actions := by
    cases hlist : task.allowed_actions with
    | nil => exact absurd hlist hactions
    | cons a rest => exact List.mem_cons_self
  rw [DeterministicBrain.decide] at h
  split at h
  · cases horder : _rank_params (task.context.getD "parameters" (.arr [])) with
    | error e =>
      rw [horder] at h
      cases h
    | ok order =>
      rw [horder] at h
      cases h
      exact hhead
  split at h
  · cases h
    exact hhead
  split at h
  · cases hzero : atMostZero (task.context.getD "budget_remaining" (.num "1".toList false)) with
    | error e =>
      rw [hzero] at h
      cases h
    | ok b =>
      rw [hzero] at h
      cases b with
      | true =>
        cases h
        dsimp only
        split
        next hstop => exact List.contains_iff_mem.1 hstop
        next => exact hhead
      | false =>
        cases h
        exact hhead
  split at h
  · cases h
    exact hhead
  · cases h
    exact hhead

/-! ### What a consultation comes to -/

omit u in
theorem not_absorbed_error {e : Raised} : ¬Absorbed same task agent (.error e) := by
  rintro ⟨decision, budget, h, -⟩
  cases h

omit u in
theorem absorbed_ok {budget : Option LlmBudget} :
    Absorbed same task agent (.ok (decision, budget)) ↔
      decision.action ∈ task.allowed_actions ∧ agent.Sortable decision := by
  constructor
  · rintro ⟨decision', budget', h, haction, acted, hacted, -⟩
    cases h
    exact ⟨haction, act_isOk.1 ⟨acted, hacted⟩⟩
  · rintro ⟨haction, hsortable⟩
    obtain ⟨acted, hacted⟩ := (@act_isOk same _ _).2 hsortable
    exact ⟨decision, budget, rfl, haction, acted, hacted, act_spec hacted⟩

theorem absorbed_fallback {budget : Option LlmBudget} {source : String}
    (hactions : task.allowed_actions ≠ []) :
    Absorbed same task agent (fallback task budget source) ↔ FallsBack task agent := by
  rw [FallsBack, ← deterministic_isOk, fallback]
  cases hdecide : DeterministicBrain.decide task with
  | error e =>
    refine iff_of_false not_absorbed_error ?_
    rintro ⟨⟨decision, h⟩, -⟩
    cases h
  | ok decision =>
    have haction := action_deterministic hdecide hactions
    refine (@absorbed_ok same task agent { decision with source } budget).trans ⟨fun h ↦ ?_, fun h ↦ ?_⟩
    · refine ⟨⟨decision, rfl⟩, fun decision' h' ↦ ?_⟩
      cases h'
      exact h.2
    · exact ⟨haction, h.2 decision rfl⟩

variable [lib : StandardLibrary]

omit u in
theorem tokenCount_isOk {value : Json} : (∃ n, tokenCount value = .ok n) ↔
    (value.truthy = true → ∃ n, lib.int value = .ok n) := by
  rw [tokenCount]
  split
  next htruthy => exact ⟨fun h _ ↦ h, fun h ↦ h htruthy⟩
  next htruthy => exact iff_of_true ⟨0, rfl⟩ fun h ↦ absurd h htruthy

omit u in
/-- When the usage of a local endpoint's document can be read. -/
theorem usage_isOk {data : Dict} : (∃ n, LocalLLMBrain.usage data = .ok n) ↔ Reported data := by
  rw [LocalLLMBrain.usage, Reported, Json.or]
  split
  next htruthy =>
    cases husage : data.get "usage" with
    | obj fields =>
      have hread : (∃ n, (do
          return (← tokenCount (Dict.get fields "prompt_tokens"),
            ← tokenCount (Dict.get fields "completion_tokens")) : Except Raised (ℤ × ℤ)) = .ok n) ↔
          (∃ n, tokenCount (Dict.get fields "prompt_tokens") = .ok n) ∧
            ∃ n, tokenCount (Dict.get fields "completion_tokens") = .ok n := by
        cases tokenCount (Dict.get fields "prompt_tokens") with
        | error e => exact iff_of_false (by rintro ⟨r, hr⟩; cases hr) (by rintro ⟨⟨r, hr⟩, -⟩; cases hr)
        | ok a =>
          cases tokenCount (Dict.get fields "completion_tokens") with
          | error e => exact iff_of_false (by rintro ⟨r, hr⟩; cases hr) (by rintro ⟨-, r, hr⟩; cases hr)
          | ok b => exact iff_of_true ⟨_, rfl⟩ ⟨⟨a, rfl⟩, b, rfl⟩
      refine Iff.trans hread ?_
      rw [tokenCount_isOk, tokenCount_isOk]
      constructor
      · rintro ⟨hprompt, hcompletion⟩ -
        refine ⟨fields, rfl, fun key hkey ↦ ?_⟩
        rcases List.mem_cons.1 hkey with rfl | hkey
        · exact hprompt
        · exact List.mem_singleton.1 hkey ▸ hcompletion
      · intro h
        obtain ⟨fields', heq, hkeys⟩ := h (husage ▸ htruthy)
        cases heq
        exact ⟨hkeys _ (by simp), hkeys _ (by simp)⟩
    | null | bool | num | str | arr =>
      refine iff_of_false (by rintro ⟨n, hn⟩; cases hn) fun h ↦ ?_
      obtain ⟨fields, heq, -⟩ := h (husage ▸ htruthy)
      cases heq
  next htruthy => exact iff_of_true ⟨(0, 0), rfl⟩ fun h ↦ absurd h htruthy

omit u lib in
theorem action_settle {input_tokens output_tokens : ℤ} (hactions : task.allowed_actions ≠ []) :
    (LLMBrain.settle task decision input_tokens output_tokens).action ∈ task.allowed_actions ∧
      (LocalLLMBrain.settle task decision input_tokens output_tokens).action ∈ task.allowed_actions := by
  have hhead : task.allowed_actions.headD [] ∈ task.allowed_actions := by
    cases hlist : task.allowed_actions with
    | nil => exact absurd hlist hactions
    | cons a rest => exact List.mem_cons_self
  rw [LLMBrain.settle, LocalLLMBrain.settle]
  dsimp only
  split
  next => exact ⟨hhead, hhead⟩
  next hallowed =>
    have hmem : decision.action ∈ task.allowed_actions := not_not.1 fun h ↦ hallowed ⟨hactions, h⟩
    exact ⟨hmem, hmem⟩

omit u lib in
/-- The counts play no part in what a decision does. -/
theorem sortable_settle {input_tokens output_tokens : ℤ} :
    agent.Sortable (LocalLLMBrain.settle task decision input_tokens output_tokens) ↔
      agent.Sortable (LocalLLMBrain.settle task decision 0 0) := by
  rw [LocalLLMBrain.settle, LocalLLMBrain.settle]
  dsimp only
  split <;> exact Iff.rfl

omit u lib in
theorem spent_isOk {budget : Option LlmBudget} :
    (∃ b, spent budget = .ok b) ↔ ∀ b ∈ budget, b.Comparable := by
  cases budget with
  | none => exact iff_of_true ⟨false, rfl⟩ fun b hb ↦ by cases hb
  | some b =>
    refine LlmBudget.exceeded_isOk.trans ⟨fun h b' hb' ↦ ?_, fun h ↦ h b rfl⟩
    cases hb'
    exact h

/-- **When a reply is contained.** -/
theorem contained_iff {budget : Option LlmBudget} {reply : BrainReply}
    (hactions : task.allowed_actions ≠ []) :
    Contained same budget task agent reply ↔ Digestible budget task agent reply := by
  rw [Contained, Digestible.eq_def, ← spent_isOk]
  cases hspent : spent budget with
  | error e =>
    refine iff_of_false ?_ (by rintro ⟨⟨b, hb⟩, -⟩; cases hb)
    cases reply with
    | llm reply =>
      simp only [consult, LLMBrain.decide, hspent, bind, Except.bind]
      exact not_absorbed_error
    | local_llm reply =>
      simp only [consult, LocalLLMBrain.decide, hspent, bind, Except.bind]
      exact not_absorbed_error
  | ok b =>
    rw [and_iff_right ⟨b, rfl⟩]
    cases b with
    | true =>
      rw [if_pos rfl]
      cases reply with
      | llm reply =>
        simp only [consult, LLMBrain.decide, hspent, bind, Except.bind]
        exact absorbed_fallback hactions
      | local_llm reply =>
        simp only [consult, LocalLLMBrain.decide, hspent, bind, Except.bind]
        exact absorbed_fallback hactions
    | false =>
      rw [if_neg (by rintro ⟨⟩)]
      cases reply with
      | llm reply =>
        simp only [consult, LLMBrain.decide, hspent, bind, Except.bind]
        cases LLMBrain.answer reply with
        | error e => exact absorbed_fallback hactions
        | ok r => exact absorbed_ok.trans (and_iff_right (action_settle hactions).1)
      | local_llm reply =>
        simp only [consult, LocalLLMBrain.decide, hspent, bind, Except.bind]
        cases LocalLLMBrain.answer reply with
        | error e => exact absorbed_fallback hactions
        | ok r =>
          obtain ⟨data, decision⟩ := r
          show Absorbed same task agent ((LocalLLMBrain.usage data).bind fun n ↦
            .ok (LocalLLMBrain.settle task decision n.1 n.2, budget.map (·.record n.1 n.2))) ↔
              Reported data ∧ agent.Sortable (LocalLLMBrain.settle task decision 0 0)
          rw [← usage_isOk]
          cases husage : LocalLLMBrain.usage data with
          | error e =>
            refine iff_of_false not_absorbed_error ?_
            rintro ⟨⟨n, hn⟩, -⟩
            cases hn
          | ok n =>
            refine absorbed_ok.trans ?_
            rw [and_iff_right (action_settle hactions).2, and_iff_right ⟨n, rfl⟩]
            exact sortable_settle

end

/-! ### Sample replies -/

section

attribute [local instance] asciiTables

/-- A decision to probe, as a brain writes it. -/
def probeText : Text := "\x7b\"action\": \"probe\"\x7d".toList

/-- A decision to probe with a list among the names of the order. -/
def nestedOrderText : Text := "\x7b\"params\": \x7b\"param_order\": [[\"id\"]]\x7d\x7d".toList

/-- A library that decodes these two documents. -/
@[reducible] def replyLibrary : StandardLibrary where
  compile _ := .ok ()
  search pattern text := Text.hasInfix pattern text
  loads text :=
    if text = probeText then .ok (.obj (Dict.recipe [("action", .text "probe")]))
    else if text = nestedOrderText then
      .ok (.obj (Dict.recipe [("params", .obj (Dict.recipe [("param_order", .arr [.arr [.text "id"]])]))]))
    else .error .ValueError
  float _ := .error .ValueError
  render _ := ""
  fullmatch pattern text := pattern = text
  sub _ _ text := .ok text
  int _ := .error .ValueError
  format template _ := .ok template

attribute [local instance] replyLibrary

/-- Keys that are texts. -/
def sameText : Json → Json → Bool
  | .str s, .str t => s = t
  | _, _ => false

/-- The task of a specialist for an endpoint with one parameter. -/
def specialistTask : BrainTask where
  role := "xss-specialist".toList
  context := .recipe [("parameters", .arr [.obj (Dict.recipe [("name", .text "id")])])]
  allowed_actions := ["probe".toList, "skip".toList]

def sampleSpecialist : SpecialistCheckAgent where
  endpoint := {
    method := "GET".toList
    url := "https://app.example/orders".toList
    path_template := "/orders".toList
    parameters := [.recipe [("name", .text "id")]] }

/-- A local endpoint decides to probe and reports its usage in words. -/
def wordUsageReply : BrainReply :=
  .local_llm (.response 200 (.ok (.obj (Dict.recipe [
    ("choices", .arr [.obj (Dict.recipe [("message", .obj (Dict.recipe [("content", .str probeText)]))])]),
    ("usage", .obj (Dict.recipe [("prompt_tokens", .text "many")]))]))))

/-- The Messages API answers with a list among the names of the order. -/
def nestedOrderReply : BrainReply :=
  .llm (.httpx (.response 200 (.ok (.obj (Dict.recipe [
    ("content", .arr [.obj (Dict.recipe [("type", .text "text"), ("text", .str nestedOrderText)])])])))))

/-- The first reply makes the consultation raise, the second the action. -/
theorem replies_not_contained :
    ¬Contained sameText none specialistTask sampleSpecialist wordUsageReply ∧
      ¬Contained sameText none specialistTask sampleSpecialist nestedOrderReply := by
  constructor
  · have hraises : (consult none specialistTask wordUsageReply).toOption.isNone = true := by
      decide +kernel
    rintro ⟨decision, budget, h, -⟩
    rw [h] at hraises
    cases hraises
  · have hraises : ((consult none specialistTask nestedOrderReply).toOption.bind fun r ↦
        (sampleSpecialist._act sameText r.1).toOption).isNone = true := by
      decide +kernel
    rintro ⟨decision, budget, h, -, acted, hacted, -⟩
    rw [h, Except.toOption, Option.bind_some, hacted] at hraises
    cases hraises

/-- A failure of the transport is contained. -/
theorem contained_iff_failure : specialistTask.allowed_actions ≠ [] ∧
    Contained sameText none specialistTask sampleSpecialist
      (.llm (.httpx (.failure (.client (.RuntimeError "timeout"))))) := by
  have hnone : ∀ b ∈ (none : Option LlmBudget), b.Comparable := fun b hb ↦ by cases hb
  refine ⟨by decide, (contained_iff (by decide)).2 ⟨hnone, ?_⟩⟩
  refine ⟨?_, fun decision hdecide ↦ ?_⟩
  · refine ⟨_, rfl, fun item hitem ↦ ?_⟩
    rw [List.mem_singleton.1 hitem]
    exact ⟨_, _, rfl, rfl⟩
  · refine Or.inr fun order horder _ ↦ ⟨fun name hname ↦ ?_, fun p hp ↦ ?_⟩
    · cases hdecide
      cases horder
      obtain ⟨t, -, rfl⟩ := List.mem_map.1 hname
      rfl
    · rw [List.mem_singleton.1 hp]
      rfl

end

end Sentrik
