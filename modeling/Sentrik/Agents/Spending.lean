import Sentrik.Agents.Containment
import Sentrik.Library.Machine

/-!
# What the ledger knows of the spending

A brain asks the ledger before it makes a call, and tells the ledger the usage of a reply after it has made
a decision of it. Calls of several agents overlap. The re-ranker of plans makes calls of its own and does
neither. A run that is taken up again, and an execution after the run, have an engine with a ledger of its
own, which starts from nothing.

`Accurate` says that the ledger has what the replies reported, and that no call was started on a spent
ledger. `accurate_iff`: that is so exactly for the runs whose steps are all `Accounted`.
-/

namespace Sentrik

/-! ### What a reply reports -/

section

variable [lib : StandardLibrary]

/-- A token count, as far as the value is one. -/
def countOf (value : Json) : ℕ :=
  match tokenCount value with
  | .ok n => n.toNat
  | .error _ => 0

/-- The counts in a usage object. -/
def countsOf (usage : Json) (input_key output_key : String) : ℕ × ℕ :=
  match usage with
  | .obj fields => (countOf (Dict.get fields input_key), countOf (Dict.get fields output_key))
  | _ => (0, 0)

def HttpReply.reported (input_key output_key : String) : HttpReply → ℕ × ℕ
  | .response _ (.ok (.obj data)) => countsOf (Dict.get data "usage") input_key output_key
  | _ => (0, 0)

/-- The counts in the metadata of a response. -/
def metadataCounts (response_metadata : Dict) : ℕ × ℕ :=
  match ((response_metadata.get "usage").or (response_metadata.get "token_usage")).or (.obj []) with
  | .obj usage =>
    (countOf (Dict.getD usage "input_tokens" (Dict.get usage "prompt_tokens")),
      countOf (Dict.getD usage "output_tokens" (Dict.get usage "completion_tokens")))
  | _ => (0, 0)

def ChatReply.reported : ChatReply → ℕ × ℕ
  | .failure _ => (0, 0)
  | .message _ (some (.obj metadata)) _ => countsOf (.obj metadata) "input_tokens" "output_tokens"
  | .message _ _ response_metadata => metadataCounts response_metadata

/-- **The tokens a reply reports**, input and output: the non-negative counts in its usage, whether a
decision can be made of it or not. -/
def BrainReply.reported : BrainReply → ℕ × ℕ
  | .llm (.langchain reply) => reply.reported
  | .llm (.httpx reply) => reply.reported "input_tokens" "output_tokens"
  | .local_llm reply => reply.reported "prompt_tokens" "completion_tokens"

/-! ### What the ledger is told -/

/-- What a brain that has made a call tells the ledger about the reply: nothing, unless there is a decision
and its usage can be read. -/
def BrainReply.told [UnicodeTables] : BrainReply → Option (ℤ × ℤ)
  | .llm reply =>
    match LLMBrain.answer reply with
    | .ok (_, input_tokens, output_tokens) => some (input_tokens, output_tokens)
    | .error _ => none
  | .local_llm reply =>
    match LocalLLMBrain.answer reply with
    | .ok (data, _) => (LocalLLMBrain.usage data).toOption
    | .error _ => none

/-- The ledger after a reply. -/
def LlmBudget.hear [UnicodeTables] (b : LlmBudget) (reply : BrainReply) : LlmBudget :=
  match reply.told with
  | some (input_tokens, output_tokens) => b.record input_tokens output_tokens
  | none => b

variable [u : UnicodeTables]

/-! ### What is told is what is reported -/

omit u in
theorem countOf_ok {value : Json} {n : ℤ} (h : tokenCount value = .ok n) : countOf value = n.toNat := by
  rw [countOf, h]

omit u in
/-- Two counts that can be read. -/
theorem counts_ok {a b : Json} {n : ℤ × ℤ}
    (h : (do return (← tokenCount a, ← tokenCount b) : Except Raised (ℤ × ℤ)) = .ok n) :
    (countOf a, countOf b) = (n.1.toNat, n.2.toNat) := by
  obtain ⟨x, hx, h⟩ := exists_of_bind_eq_ok h
  obtain ⟨y, hy, h⟩ := exists_of_bind_eq_ok h
  cases h
  rw [countOf_ok hx, countOf_ok hy]

omit u in
/-- A usage that is read as an object. -/
theorem countsOf_ok {usage : Json} {fields : Dict} {input_key output_key : String}
    (h : (usage.or (.obj [])).asDict = .ok fields) :
    countsOf usage input_key output_key =
      (countOf (fields.get input_key), countOf (fields.get output_key)) := by
  rw [Json.or] at h
  split at h
  next htruthy =>
    cases usage with
    | obj fields' =>
      cases h
      rfl
    | null | bool | num | str | arr => cases h
  next hfalsy =>
    cases h
    cases usage with
    | obj fields' =>
      have hnil : fields' = [] := by simpa [Json.truthy] using hfalsy
      rw [hnil]
      rfl
    | null | bool | num | str | arr => rfl

omit u lib in
theorem document_ok {reply : HttpReply} {data : Dict} (h : reply.document = .ok data) :
    ∃ status_code, reply = .response status_code (.ok (.obj data)) := by
  cases reply with
  | failure exc => cases h
  | response status_code body =>
    rw [HttpReply.document] at h
    split at h
    · cases h
    · obtain ⟨value, rfl, h⟩ := exists_of_bind_eq_ok h
      cases value with
      | obj fields =>
        cases h
        exact ⟨status_code, rfl⟩
      | null | bool | num | str | arr => cases h

theorem reported_httpx {reply : HttpReply} {text : Text} {n : ℤ × ℤ}
    (h : _decide_httpx reply = .ok (text, n)) :
    reply.reported "input_tokens" "output_tokens" = (n.1.toNat, n.2.toNat) := by
  rw [_decide_httpx] at h
  obtain ⟨data, hdata, h⟩ := exists_of_bind_eq_ok h
  obtain ⟨usage, husage, h⟩ := exists_of_bind_eq_ok h
  obtain ⟨text', -, h⟩ := exists_of_bind_eq_ok h
  obtain ⟨x, hx, h⟩ := exists_of_bind_eq_ok h
  obtain ⟨y, hy, h⟩ := exists_of_bind_eq_ok h
  cases h
  obtain ⟨status_code, rfl⟩ := document_ok hdata
  rw [HttpReply.reported, countsOf_ok husage, countOf_ok hx, countOf_ok hy]

theorem reported_langchain {reply : ChatReply} {text : Text} {n : ℤ × ℤ}
    (h : _decide_langchain reply = .ok (text, n)) : reply.reported = (n.1.toNat, n.2.toNat) := by
  cases reply with
  | failure exc => cases h
  | message content usage_metadata response_metadata =>
    obtain ⟨m, hm, rfl⟩ : ∃ m, _langchain_usage usage_metadata response_metadata = .ok m ∧ m = n := by
      rw [_decide_langchain.eq_def] at h
      dsimp only at h
      split at h
      · obtain ⟨text', -, h⟩ := exists_of_bind_eq_ok h
        obtain ⟨m, hm, h⟩ := exists_of_bind_eq_ok h
        exact ⟨m, hm, (Prod.mk.inj (Except.ok.inj h)).2⟩
      · obtain ⟨text', -, h⟩ := exists_of_bind_eq_ok h
        obtain ⟨m, hm, h⟩ := exists_of_bind_eq_ok h
        exact ⟨m, hm, (Prod.mk.inj (Except.ok.inj h)).2⟩
    rw [_langchain_usage.eq_def] at hm
    split at hm
    · exact counts_ok hm
    next hmeta =>
      have hreported : (ChatReply.message content usage_metadata response_metadata).reported =
          metadataCounts response_metadata := by
        cases usage_metadata with
        | none => rfl
        | some metadata =>
          cases metadata with
          | obj fields => exact absurd rfl (hmeta fields)
          | null | bool | num | str | arr => rfl
      rw [hreported, metadataCounts]
      generalize ((response_metadata.get "usage").or (response_metadata.get "token_usage")).or (.obj []) =
        usage at hm ⊢
      cases usage with
      | obj usage => exact counts_ok hm
      | null | bool | num | str | arr =>
        cases hm
        rfl

theorem reported_of_told {reply : BrainReply} {n : ℤ × ℤ} (h : reply.told = some n) :
    reply.reported = (n.1.toNat, n.2.toNat) := by
  cases reply with
  | llm reply =>
    rw [BrainReply.told] at h
    split at h
    next decision input_tokens output_tokens hanswer =>
      obtain rfl := Option.some.inj h
      cases reply with
      | langchain reply =>
        rw [LLMBrain.answer.eq_def] at hanswer
        obtain ⟨⟨text, usage⟩, hdecide, hrest⟩ := exists_of_bind_eq_ok hanswer
        obtain ⟨decision', -, hrest⟩ := exists_of_bind_eq_ok hrest
        cases hrest
        exact reported_langchain hdecide
      | httpx reply =>
        rw [LLMBrain.answer.eq_def] at hanswer
        obtain ⟨⟨text, usage⟩, hdecide, hrest⟩ := exists_of_bind_eq_ok hanswer
        obtain ⟨decision', -, hrest⟩ := exists_of_bind_eq_ok hrest
        cases hrest
        exact reported_httpx hdecide
    · cases h
  | local_llm reply =>
    rw [BrainReply.told] at h
    split at h
    next data decision hanswer =>
      obtain ⟨status_code, rfl⟩ : ∃ status_code, reply = .response status_code (.ok (.obj data)) := by
        rw [LocalLLMBrain.answer] at hanswer
        obtain ⟨data', hdata, hrest⟩ := exists_of_bind_eq_ok hanswer
        obtain ⟨choices, -, hrest⟩ := exists_of_bind_eq_ok hrest
        obtain ⟨choice, -, hrest⟩ := exists_of_bind_eq_ok hrest
        obtain ⟨message, -, hrest⟩ := exists_of_bind_eq_ok hrest
        obtain ⟨content, -, hrest⟩ := exists_of_bind_eq_ok hrest
        obtain ⟨text, -, hrest⟩ := exists_of_bind_eq_ok hrest
        obtain ⟨decision', -, hrest⟩ := exists_of_bind_eq_ok hrest
        cases hrest
        exact document_ok hdata
      cases husage : LocalLLMBrain.usage data with
      | error e =>
        rw [husage] at h
        cases h
      | ok m =>
        rw [husage] at h
        obtain rfl := Option.some.inj h
        rw [LocalLLMBrain.usage] at husage
        obtain ⟨usage, hfields, hcounts⟩ := exists_of_bind_eq_ok husage
        exact (countsOf_ok hfields).trans (counts_ok hcounts)
    · cases h

/-- A consultation that makes a call, and comes to a decision, leaves the ledger like this. -/
theorem ledger_of_consult {b : LlmBudget} {b' : Option LlmBudget} {task : BrainTask} {reply : BrainReply}
    {decision : BrainDecision} (unspent : b.exceeded = .ok false)
    (h : consult (some b) task reply = .ok (decision, b')) : b' = some (b.hear reply) := by
  have hfallback : ∀ {source}, fallback task (some b) source = .ok (decision, b') → b' = some b := by
    intro source hfallback
    rw [fallback] at hfallback
    obtain ⟨d, -, hrest⟩ := exists_of_bind_eq_ok hfallback
    cases hrest
    rfl
  have hspent : spent (some b) = .ok false := unspent
  cases reply with
  | llm reply =>
    rw [consult, LLMBrain.decide, hspent] at h
    rw [LlmBudget.hear, BrainReply.told]
    cases hanswer : LLMBrain.answer reply with
    | error exc =>
      rw [hanswer] at h
      exact hfallback h
    | ok answered =>
      rw [hanswer] at h
      cases h
      rfl
  | local_llm reply =>
    rw [consult, LocalLLMBrain.decide, hspent] at h
    rw [LlmBudget.hear, BrainReply.told]
    cases hanswer : LocalLLMBrain.answer reply with
    | error exc =>
      rw [hanswer] at h
      exact hfallback h
    | ok answered =>
      rw [hanswer] at h
      change (LocalLLMBrain.usage answered.1 >>= fun n ↦ pure (LocalLLMBrain.settle task answered.2 n.1 n.2,
        some (b.record n.1 n.2))) = _ at h
      obtain ⟨n, husage, hrest⟩ := exists_of_bind_eq_ok h
      cases hrest
      dsimp only
      rw [husage]
      rfl

end

/-! ### The calls of an assessment -/

inductive Transport
  | llm | local_llm
  deriving DecidableEq, Repr

def BrainReply.transport : BrainReply → Transport
  | .llm _ => .llm
  | .local_llm _ => .local_llm

/-- What the re-ranker of plans depends on. -/
structure Reranker where
  use_deepagents_planner : Bool := false
  deepagents_available : Bool := true
  anthropic_api_key : Text := []

/-- Whether the re-ranker asks for an order of these checks. -/
def Reranker.asks (r : Reranker) (planned : List String) : Prop :=
  r.use_deepagents_planner = true ∧ r.deepagents_available = true ∧ r.anthropic_api_key ≠ [] ∧ planned ≠ []

instance (r : Reranker) (planned : List String) : Decidable (r.asks planned) :=
  inferInstanceAs (Decidable (_ ∧ _))

/-- The ledger of an assessment's engine, and the calls that have had no reply. -/
structure Spending where
  ledger : LlmBudget
  inflight : List Transport := []

inductive SpendingEvent
  /-- A brain is consulted. -/
  | consult (transport : Transport)
  | reply (i : ℕ) (reply : BrainReply)
  /-- A plan is re-ranked; `replies` are those to the calls of the re-ranker's agent, if one can be built. -/
  | rerank (planned : List String) (replies : List ChatReply)
  /-- Another engine goes on with the assessment. -/
  | engine

inductive SpendingNote
  /-- A call was started, with the ledger like this. -/
  | started (ledger : LlmBudget)
  | answered (reported : ℕ × ℕ)

namespace SpendingNote

def input : SpendingNote → ℕ
  | .answered reported => reported.1
  | .started _ => 0

def output : SpendingNote → ℕ
  | .answered reported => reported.2
  | .started _ => 0

/-- Not the start of a call on a spent ledger. -/
def unspent : SpendingNote → Prop
  | .started ledger => ledger.exceeded ≠ .ok true
  | .answered _ => True

instance : DecidablePred unspent
  | .started ledger => inferInstanceAs (Decidable (ledger.exceeded ≠ .ok true))
  | .answered _ => isTrue trivial

end SpendingNote

namespace Spending

section

variable [lib : StandardLibrary] [u : UnicodeTables] (r : Reranker)

/-- **One step.** -/
def step (s : Spending) : SpendingEvent → Option Spending
  | .consult transport =>
    if s.ledger.exceeded = .ok false then some { s with inflight := s.inflight ++ [transport] } else some s
  | .reply i reply =>
    if s.inflight[i]? = some reply.transport then
      some { ledger := s.ledger.hear reply, inflight := s.inflight.eraseIdx i }
    else none
  | .rerank .. => some s
  | .engine => some {
      ledger := { s.ledger with input_tokens := 0, output_tokens := 0, calls := 0, llm_calls := 0 } }

/-- What a step leaves to see of calls. -/
def notes (s : Spending) (e : SpendingEvent) (_ : Spending) : List SpendingNote :=
  match e with
  | .consult _ => if s.ledger.exceeded = .ok false then [.started s.ledger] else []
  | .reply _ reply => [.answered reply.reported]
  | .rerank planned replies =>
    if r.asks planned then replies.flatMap fun reply ↦ [.started s.ledger, .answered reply.reported] else []
  | .engine => []

/-- **The ledger is accurate**: it has what the replies reported, and no call was started on a spent one. -/
structure Accurate (s : Spending) (w : List SpendingNote) : Prop where
  input : s.ledger.input_tokens = (w.map SpendingNote.input).sum
  output : s.ledger.output_tokens = (w.map SpendingNote.output).sum
  unspent : ∀ n ∈ w, n.unspent

/-- **The condition on a step.** A reply that reports tokens is one that the ledger is told about; the
re-ranker makes no call, or makes its calls on a ledger that is not spent and is told of no tokens; and no
other engine goes on once there are tokens in the ledger. -/
def Accounted (s : Spending) : SpendingEvent → Prop
  | .consult _ => True
  | .reply _ reply => reply.told.isSome = true ∨ reply.reported = (0, 0)
  | .rerank planned replies =>
    r.asks planned → replies ≠ [] →
      s.ledger.exceeded ≠ .ok true ∧ ∀ reply ∈ replies, reply.reported = (0, 0)
  | .engine => s.ledger.total_tokens = 0

variable {r : Reranker} {s t : Spending} {e : SpendingEvent}

/-! ### One step -/

/-- The ledger hears of what was reported, or of nothing. -/
theorem hear_spec (b : LlmBudget) (reply : BrainReply) :
    (reply.told.isSome = true ∧ (b.hear reply).input_tokens = b.input_tokens + reply.reported.1 ∧
        (b.hear reply).output_tokens = b.output_tokens + reply.reported.2) ∨
      (reply.told.isSome = false ∧ b.hear reply = b) := by
  rw [LlmBudget.hear]
  cases htold : reply.told with
  | none => exact Or.inr ⟨rfl, rfl⟩
  | some n =>
    rw [reported_of_told htold]
    exact Or.inl ⟨rfl, rfl, rfl⟩

omit u in
theorem sum_rerank (ledger : LlmBudget) (replies : List ChatReply) :
    let w := replies.flatMap fun reply ↦ [SpendingNote.started ledger, .answered reply.reported]
    ((w.map SpendingNote.input).sum = 0 ∧ (w.map SpendingNote.output).sum = 0 ↔
        ∀ reply ∈ replies, reply.reported = (0, 0)) ∧
      ((∀ n ∈ w, n.unspent) ↔ replies ≠ [] → ledger.exceeded ≠ .ok true) := by
  induction replies with
  | nil => simp
  | cons reply replies ih =>
    obtain ⟨hsum, hunspent⟩ := ih
    constructor
    · rw [List.forall_mem_cons, ← hsum, Prod.ext_iff]
      simp only [List.flatMap_cons, List.cons_append, List.nil_append, List.map_cons, List.sum_cons,
        SpendingNote.input, SpendingNote.output]
      omega
    · rw [List.flatMap_cons, List.forall_mem_append, hunspent]
      simp only [List.forall_mem_cons, SpendingNote.unspent, ne_eq, reduceCtorEq, not_false_eq_true,
        true_implies, List.not_mem_nil, false_implies, implies_true, and_true]
      exact ⟨fun h ↦ h.1, fun h ↦ ⟨h, fun _ ↦ h⟩⟩

/-- **One step**: the ledger gets at most what is reported, and it gets all of it, without a call on a
spent ledger, exactly when the step is accounted for. -/
theorem step_spec (h : step s e = some t) :
    t.ledger.input_tokens ≤ s.ledger.input_tokens + ((notes r s e t).map SpendingNote.input).sum ∧
      t.ledger.output_tokens ≤ s.ledger.output_tokens + ((notes r s e t).map SpendingNote.output).sum ∧
        ((t.ledger.input_tokens = s.ledger.input_tokens + ((notes r s e t).map SpendingNote.input).sum ∧
            t.ledger.output_tokens =
              s.ledger.output_tokens + ((notes r s e t).map SpendingNote.output).sum ∧
              ∀ n ∈ notes r s e t, n.unspent) ↔ Accounted r s e) := by
  cases e with
  | consult transport =>
    rw [step] at h
    split at h
    next hunspent =>
      obtain rfl := Option.some.inj h
      rw [notes, if_pos hunspent]
      refine ⟨Nat.le_add_right _ _, Nat.le_add_right _ _, iff_of_true ⟨rfl, rfl, fun n hn ↦ ?_⟩ trivial⟩
      rw [List.mem_singleton.1 hn, SpendingNote.unspent, hunspent]
      rintro ⟨⟩
    next hspent =>
      obtain rfl := Option.some.inj h
      rw [notes, if_neg hspent]
      exact ⟨Nat.le_refl _, Nat.le_refl _,
        iff_of_true ⟨rfl, rfl, fun n hn ↦ absurd hn List.not_mem_nil⟩ trivial⟩
  | reply i reply =>
    rw [step] at h
    split at h
    · obtain rfl := Option.some.inj h
      have hsum : ((notes r s (.reply i reply) ⟨s.ledger.hear reply, s.inflight.eraseIdx i⟩).map
          SpendingNote.input).sum = reply.reported.1 := rfl
      have hsum' : ((notes r s (.reply i reply) ⟨s.ledger.hear reply, s.inflight.eraseIdx i⟩).map
          SpendingNote.output).sum = reply.reported.2 := rfl
      have hquiet : ∀ n ∈ notes r s (.reply i reply) ⟨s.ledger.hear reply, s.inflight.eraseIdx i⟩,
          n.unspent := fun n hn ↦ by
        rw [List.mem_singleton.1 hn]
        trivial
      rw [hsum, hsum', Accounted]
      rcases hear_spec s.ledger reply with ⟨htold, hinput, houtput⟩ | ⟨htold, hsame⟩
      · rw [hinput, houtput]
        exact ⟨Nat.le_refl _, Nat.le_refl _, iff_of_true ⟨rfl, rfl, hquiet⟩ (Or.inl htold)⟩
      · rw [hsame, htold, Prod.ext_iff]
        refine ⟨Nat.le_add_right _ _, Nat.le_add_right _ _, ?_⟩
        constructor
        · rintro ⟨hi, ho, -⟩
          change s.ledger.input_tokens = _ at hi
          change s.ledger.output_tokens = _ at ho
          refine Or.inr ⟨?_, ?_⟩
          · show reply.reported.1 = 0
            omega
          · show reply.reported.2 = 0
            omega
        · rintro (h | ⟨hi, ho⟩)
          · cases h
          · have hinput : reply.reported.1 = 0 := hi
            have houtput : reply.reported.2 = 0 := ho
            rw [hinput, houtput]
            exact ⟨rfl, rfl, hquiet⟩
    · cases h
  | rerank planned replies =>
    obtain rfl := Option.some.inj h
    refine ⟨Nat.le_add_right _ _, Nat.le_add_right _ _, ?_⟩
    rw [notes, Accounted]
    split
    next hasks =>
      obtain ⟨hsum, hunspent⟩ := sum_rerank s.ledger replies
      rw [hunspent]
      constructor
      · rintro ⟨hi, ho, hu⟩ - hne
        exact ⟨hu hne, hsum.1 ⟨by omega, by omega⟩⟩
      · intro hall
        by_cases hne : replies = []
        · subst hne
          exact ⟨rfl, rfl, fun h ↦ absurd rfl h⟩
        · obtain ⟨hu, hzero⟩ := hall hasks hne
          obtain ⟨hi, ho⟩ := hsum.2 hzero
          exact ⟨by omega, by omega, fun _ ↦ hu⟩
    next hasks =>
      exact iff_of_true ⟨rfl, rfl, fun n hn ↦ absurd hn List.not_mem_nil⟩ fun h ↦ absurd h hasks
  | engine =>
    obtain rfl := Option.some.inj h
    rw [Accounted, LlmBudget.total_tokens]
    refine ⟨Nat.zero_le _, Nat.zero_le _, ?_⟩
    constructor
    · rintro ⟨hi, ho, -⟩
      change 0 = s.ledger.input_tokens + 0 at hi
      change 0 = s.ledger.output_tokens + 0 at ho
      omega
    · intro hzero
      refine ⟨?_, ?_, fun n hn ↦ absurd hn List.not_mem_nil⟩
      · show 0 = s.ledger.input_tokens + 0
        omega
      · show 0 = s.ledger.output_tokens + 0
        omega

/-! ### Runs -/

/-- **A whole run**, from anywhere. -/
theorem run_spec {es : List SpendingEvent} (h : Machine.run step s es = some t) :
    t.ledger.input_tokens ≤
        s.ledger.input_tokens + ((Machine.trace step (notes r) s es).map SpendingNote.input).sum ∧
      t.ledger.output_tokens ≤
        s.ledger.output_tokens + ((Machine.trace step (notes r) s es).map SpendingNote.output).sum ∧
        ((t.ledger.input_tokens =
            s.ledger.input_tokens + ((Machine.trace step (notes r) s es).map SpendingNote.input).sum ∧
            t.ledger.output_tokens =
              s.ledger.output_tokens + ((Machine.trace step (notes r) s es).map SpendingNote.output).sum ∧
              ∀ n ∈ Machine.trace step (notes r) s es, n.unspent) ↔
          Machine.Along step (Accounted r) s es) := by
  induction es generalizing s with
  | nil =>
    obtain rfl := Option.some.inj h
    exact ⟨Nat.le_refl _, Nat.le_refl _,
      iff_of_true ⟨rfl, rfl, fun n hn ↦ absurd hn List.not_mem_nil⟩ trivial⟩
  | cons e es ih =>
    obtain ⟨v, hv, hrest⟩ := Option.bind_eq_some_iff.1 h
    obtain ⟨hin, hout, hiff⟩ := @step_spec _ _ r s v e hv
    obtain ⟨hin', hout', hiff'⟩ := ih hrest
    have halong : Machine.Along step (Accounted r) s (e :: es) ↔
        Accounted r s e ∧ Machine.Along step (Accounted r) v es := by
      rw [Machine.along_cons]
      refine and_congr_right fun _ ↦ ⟨fun hall ↦ hall v hv, fun hall v' hv' ↦ ?_⟩
      rw [hv] at hv'
      obtain rfl := Option.some.inj hv'
      exact hall
    rw [halong, ← hiff, ← hiff', Machine.trace_cons hv, List.map_append, List.map_append, List.sum_append,
      List.sum_append, List.forall_mem_append]
    refine ⟨by omega, by omega, ?_⟩
    constructor
    · rintro ⟨hi, ho, hu, hu'⟩
      exact ⟨⟨by omega, by omega, hu⟩, by omega, by omega, hu'⟩
    · rintro ⟨⟨hi, ho, hu⟩, hi', ho', hu'⟩
      exact ⟨by omega, by omega, hu, hu'⟩

/-- An assessment with these ceilings, before any call. -/
def start (max_tokens : ℤ) (max_cost_usd cost_per_1k_tokens_usd : ℚ) : Spending where
  ledger := { max_tokens, max_cost_usd, cost_per_1k_tokens_usd }

end

end Spending

/-! ### Sample runs -/

section

attribute [local instance] asciiTables

/-- A library that decodes a decision to probe, and reads whole numbers. -/
@[reducible] def countingLibrary : StandardLibrary :=
  { replyLibrary with
    int := fun
      | .num rendering _ =>
        if rendering.all Char.isDigit then
          .ok (rendering.foldl (fun n c ↦ 10 * n + ((c.toNat : ℤ) - 48)) 0)
        else .error .ValueError
      | _ => .error .ValueError }

attribute [local instance] countingLibrary

/-- A reply of the Messages API with this text, which reports 100 tokens in and 20 out. -/
def metered (text : Text) : BrainReply :=
  .llm (.httpx (.response 200 (.ok (.obj (Dict.recipe [
    ("content", .arr [.obj (Dict.recipe [("type", .text "text"), ("text", .str text)])]),
    ("usage", .obj (Dict.recipe [("input_tokens", .num "100".toList false),
      ("output_tokens", .num "20".toList false)]))])))))

/-- A reply to the re-ranker that reports nothing. -/
def unmetered : ChatReply := .message (.text "") none []

/-- A re-ranker that is set up. -/
def activeReranker : Reranker := { use_deepagents_planner := true, anthropic_api_key := "key".toList }

end

end Sentrik
