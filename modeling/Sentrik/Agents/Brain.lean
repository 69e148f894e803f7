import Mathlib.Algebra.GroupWithZero.Nat
import Mathlib.Data.List.Sort
import Sentrik.Checks.Client

/-!
# Agent brains

How a brain comes to a decision: by rule, from a reply of the Messages API (raw or through a chat model),
or from a reply of a local endpoint that speaks the other dialect. Brains only rank and select among
allowed actions, and their output is untrusted.

**A reply is anything**: a failure of the transport with any exception, any status, a body that is no
document, or any document. What `decide` makes of it is a decision or an exception, and a ledger of what
was spent.

The prompt a brain sends is left out: a context is a document, so writing it never raises. The compaction of the
context for it is a module of its own (`_compact_context`). An error the code raises itself is of one class here; no handler looks at it.
-/

namespace Sentrik

structure BrainTask where
  role : Text
  instruction : Text := []
  /-- Untrusted facts. -/
  context : Dict := []
  /-- The closed set the brain may pick from. -/
  allowed_actions : List Text := []
  max_tokens : ℕ := 512

structure BrainDecision where
  action : Text
  reasoning : Text
  params : Dict := []
  source : String := "deterministic"
  confidence : PyFloat := .finite (6 / 10)
  input_tokens : ℤ := 0
  output_tokens : ℤ := 0

/-! ### The ledger -/

/-- Token usage of one assessment, and its ceilings; a ceiling of zero is none. -/
structure LlmBudget where
  max_tokens : ℤ := 0
  max_cost_usd : ℚ := 0
  cost_per_1k_tokens_usd : ℚ := 15 / 1000
  input_tokens : ℕ := 0
  output_tokens : ℕ := 0
  calls : ℕ := 0
  llm_calls : ℕ := 0
  deriving DecidableEq, Repr

namespace LlmBudget

def total_tokens (b : LlmBudget) : ℕ := b.input_tokens + b.output_tokens

/-- The first integer that is too large for a floating-point number. -/
def floatLimit : ℕ := 2 ^ 1024 - 2 ^ 970

/-- The cost; the division needs the tokens as a floating-point number. -/
def cost_usd (b : LlmBudget) : Except Raised ℚ :=
  if floatLimit ≤ b.total_tokens then .error .OverflowError
  else .ok (b.total_tokens / 1000 * b.cost_per_1k_tokens_usd)

/-- Whether a ceiling is reached. -/
def exceeded (b : LlmBudget) : Except Raised Bool := do
  if b.max_tokens ≠ 0 ∧ b.max_tokens ≤ b.total_tokens then return true
  else if b.max_cost_usd ≠ 0 then return b.max_cost_usd ≤ (← b.cost_usd)
  else return false

/-- Add the usage of one network call. -/
def record (b : LlmBudget) (input_tokens output_tokens : ℤ) : LlmBudget :=
  { b with
    input_tokens := b.input_tokens + input_tokens.toNat
    output_tokens := b.output_tokens + output_tokens.toNat
    llm_calls := b.llm_calls + 1 }

/-- **The ledger can be compared with its ceilings.** -/
def Comparable (b : LlmBudget) : Prop :=
  (b.max_tokens ≠ 0 ∧ b.max_tokens ≤ b.total_tokens) ∨ b.max_cost_usd = 0 ∨ b.total_tokens < floatLimit

theorem exceeded_isOk {b : LlmBudget} : (∃ x, b.exceeded = .ok x) ↔ b.Comparable := by
  rw [exceeded, Comparable]
  split
  next htokens => exact iff_of_true ⟨true, rfl⟩ (Or.inl htokens)
  next htokens =>
    split
    next hcost =>
      rw [cost_usd]
      split
      next hlimit =>
        refine iff_of_false (fun ⟨x, hx⟩ ↦ by cases hx) ?_
        rintro (h | h | h)
        · exact htokens h
        · exact hcost h
        · exact absurd h (not_lt.2 hlimit)
      next hlimit => exact iff_of_true ⟨_, rfl⟩ (Or.inr (Or.inr (not_le.1 hlimit)))
    next hcost => exact iff_of_true ⟨false, rfl⟩ (Or.inr (Or.inl (not_not.1 hcost)))

end LlmBudget

/-! ### The rule-based brain -/

section

variable [u : UnicodeTables]

/-- The name of a parameter, as `p.get("name", "")` reads it. -/
def paramName (p : Dict) : Json := p.getD "name" (.text "")

/-- How injectable a parameter looks. -/
def paramScore (name : Text) (p : Dict) : ℕ :=
  (if ["id", "user", "search", "q", "query", "name", "email"].any fun hint ↦
      Text.hasInfix hint.toList name then 3 else 0) +
    if (p.get "in").is "query".toList || (p.get "in").is "body".toList then 1 else 0

/-- A parameter's name, with its score. -/
def scoredName (item : Json) : Except Raised (ℕ × Text) := do
  let p ← item.asDict
  let name ← (paramName p).asText
  return (paramScore (u.lower name) p, name)

/-- The names of the parameters, the most injectable first. -/
def _rank_params (params : Json) : Except Raised (List Text) := do
  let scored ← (← params.iter).mapM scoredName
  return ((scored.insertionSort fun a b ↦ b.1 ≤ a.1).map Prod.snd).filter (· ≠ [])

/-- `value <= 0`, for a number. -/
def atMostZero : Json → Except Raised Bool
  | .bool b => .ok !b
  | .num rendering zero => .ok (zero || rendering.head? == some '-')
  | _ => .error .TypeError

def DeterministicBrain.decide (task : BrainTask) : Except Raised BrainDecision := do
  let action := task.allowed_actions.headD "proceed".toList
  let reasoning := "deterministic policy for ".toList ++ task.role ++ ": default to '".toList ++ action ++
    "'".toList
  if "specialist".toList.isSuffixOf task.role then
    let order ← _rank_params (task.context.getD "parameters" (.arr []))
    return {
      action
      reasoning := "ranked parameters by injectability heuristic".toList
      params := .recipe [("param_order", .arr (order.map .str))] }
  else if task.role = "planner".toList then
    return { action, reasoning, params := .recipe [("strategy", .text "coverage-first")] }
  else if task.role = "coordinator".toList then
    if ← atMostZero (task.context.getD "budget_remaining" (.num "1".toList false)) then
      return {
        action := if task.allowed_actions.contains "stop".toList then "stop".toList else action
        reasoning := "budget exhausted".toList }
    else return { action, reasoning }
  else if task.role = "validator".toList then
    return { action, reasoning, params := .recipe [("independent", .bool true)] }
  else return { action, reasoning }

/-! ### Replies -/

/-- What comes back of a request to an endpoint: an exception, or a status and a body. -/
inductive HttpReply
  | failure (exc : Raised)
  | response (status_code : ℕ) (body : Except Raised Json)

/-- What comes back of a call of a chat model. -/
inductive ChatReply
  | failure (exc : Raised)
  | message (content : Json) (usage_metadata : Option Json) (response_metadata : Dict)

/-- A reply on one of the transports of `LLMBrain`. -/
inductive LlmReply
  | langchain (reply : ChatReply)
  | httpx (reply : HttpReply)

variable [lib : StandardLibrary]

/-- `int(value or 0)` -/
def tokenCount (value : Json) : Except Raised ℤ := if value.truthy then lib.int value else .ok 0

/-- Texts that are joined. -/
def joinTexts (sep : Text) (parts : List Json) : Except Raised Text := do
  return Json.joinWith sep (← (Json.arr parts).texts)

/-- The part of a text from its first opening brace to its last closing one. -/
def jsonPart (text : Text) : Option Text :=
  if text.contains '\x7b' && text.contains '\x7d' then
    some ((text.reverse.dropWhile (· ≠ '\x7d')).reverse.drop (text.idxOf '\x7b'))
  else none

def _is_num : Json → Bool
  | .num .. | .bool _ => true
  | _ => false

def _parse_decision (text : Text) : Except Raised BrainDecision := do
  match jsonPart text with
  | none => throw .ValueError
  | some part =>
    let obj ← (← lib.loads part).asDict
    let confidence ← if _is_num (obj.get "confidence") then lib.float (obj.get "confidence")
      else .ok (.finite (6 / 10))
    return {
      action := (obj.getD "action" (.text "proceed")).toText
      reasoning := (obj.getD "reasoning" (.text "")).toText.take 280
      params := ((obj.get "params").dict?).getD []
      confidence }

def _extract_text (data : Dict) : Except Raised Text := do
  let blocks ← (data.getD "content" (.arr [])).iter
  let parts := blocks.filterMap fun b ↦ (b.dict?.filter fun d ↦ (d.get "type").is "text".toList).map
    fun d ↦ d.getD "text" (.text "")
  return Text.strip (← joinTexts "\n".toList parts)

/-- The document of a reply whose status is no error. -/
def HttpReply.document : HttpReply → Except Raised Dict
  | .failure exc => .error exc
  | .response status_code body => do
    if 400 ≤ status_code then throw (.client (.RuntimeError s!"HTTP {status_code}"))
    (← body).asDict

def _decide_httpx (reply : HttpReply) : Except Raised (Text × ℤ × ℤ) := do
  let data ← reply.document
  let usage ← ((data.get "usage").or (.obj [])).asDict
  let text ← _extract_text data
  let input_tokens ← tokenCount (usage.get "input_tokens")
  let output_tokens ← tokenCount (usage.get "output_tokens")
  return (text, input_tokens, output_tokens)

def _langchain_usage (usage_metadata : Option Json) (response_metadata : Dict) :
    Except Raised (ℤ × ℤ) := do
  match usage_metadata with
  | some (.obj metadata) =>
    return (← tokenCount (Dict.get metadata "input_tokens"), ← tokenCount (Dict.get metadata "output_tokens"))
  | _ =>
    match ((response_metadata.get "usage").or (response_metadata.get "token_usage")).or (.obj []) with
    | .obj usage =>
      return (← tokenCount (Dict.getD usage "input_tokens" (Dict.get usage "prompt_tokens")),
        ← tokenCount (Dict.getD usage "output_tokens" (Dict.get usage "completion_tokens")))
    | _ => return (0, 0)

def _decide_langchain : ChatReply → Except Raised (Text × ℤ × ℤ)
  | .failure exc => .error exc
  | .message content usage_metadata response_metadata => do
    let text ← match content with
      | .arr blocks => joinTexts [] (blocks.map fun b ↦
          match b with
          | .obj fields => Dict.getD fields "text" (.text "")
          | b => .str b.toText)
      | content => .ok content.toText
    return (text, ← _langchain_usage usage_metadata response_metadata)

/-! ### The brains -/

/-- The ledger is spent. -/
def spent (budget : Option LlmBudget) : Except Raised Bool :=
  match budget with
  | some b => b.exceeded
  | none => .ok false

/-- The decision of the rule-based brain, marked with why it was asked. -/
def fallback (task : BrainTask) (budget : Option LlmBudget) (source : String) :
    Except Raised (BrainDecision × Option LlmBudget) := do
  return ({ ← DeterministicBrain.decide task with source }, budget)

namespace LLMBrain

/-- What the guarded part of `decide` makes of a reply: a decision, and the tokens used. -/
def answer (reply : LlmReply) : Except Raised (BrainDecision × ℤ × ℤ) := do
  let (text, usage) ← match reply with
    | .langchain reply => _decide_langchain reply
    | .httpx reply => _decide_httpx reply
  return (← _parse_decision text, usage)

/-- The chosen action is kept inside the closed set. -/
def settle (task : BrainTask) (decision : BrainDecision) (input_tokens output_tokens : ℤ) : BrainDecision :=
  let decision := { decision with input_tokens, output_tokens, source := "llm" }
  if task.allowed_actions ≠ [] ∧ decision.action ∉ task.allowed_actions then
    { decision with
      action := task.allowed_actions.headD []
      reasoning := "[coerced to allowed] ".toList ++ decision.reasoning }
  else decision

def decide (budget : Option LlmBudget) (task : BrainTask) (reply : LlmReply) :
    Except Raised (BrainDecision × Option LlmBudget) := do
  if ← spent budget then fallback task budget "budget_exceeded"
  else
    match answer reply with
    | .error _ => fallback task budget "llm_fallback"
    | .ok (decision, input_tokens, output_tokens) =>
      return (settle task decision input_tokens output_tokens,
        budget.map (·.record input_tokens output_tokens))

end LLMBrain

namespace LocalLLMBrain

/-- `value[0]` -/
def first : Json → Except Raised Json
  | .arr (item :: _) => .ok item
  | .str (c :: _) => .ok (.str [c])
  | _ => .error .KeyError

/-- `value[key]` -/
def itemOf (value : Json) (key : String) : Except Raised Json :=
  match value with
  | .obj fields => Dict.item fields key
  | _ => .error .TypeError

/-- What the guarded part of `decide` makes of a reply: its document, and a decision. -/
def answer (reply : HttpReply) : Except Raised (Dict × BrainDecision) := do
  let data ← reply.document
  let choice ← first (← data.item "choices")
  let content ← itemOf (← itemOf choice "message") "content"
  return (data, ← _parse_decision (← content.asText))

/-- The tokens a document reports. This is read outside the guarded part. -/
def usage (data : Dict) : Except Raised (ℤ × ℤ) := do
  let usage ← ((data.get "usage").or (.obj [])).asDict
  return (← tokenCount (usage.get "prompt_tokens"), ← tokenCount (usage.get "completion_tokens"))

def settle (task : BrainTask) (decision : BrainDecision) (input_tokens output_tokens : ℤ) : BrainDecision :=
  let decision := { decision with input_tokens, output_tokens, source := "local_llm" }
  if task.allowed_actions ≠ [] ∧ decision.action ∉ task.allowed_actions then
    { decision with action := task.allowed_actions.headD [] }
  else decision

def decide (budget : Option LlmBudget) (task : BrainTask) (reply : HttpReply) :
    Except Raised (BrainDecision × Option LlmBudget) := do
  if ← spent budget then fallback task budget "budget_exceeded"
  else
    match answer reply with
    | .error _ => fallback task budget "local_llm_fallback"
    | .ok (data, decision) => do
      let (input_tokens, output_tokens) ← usage data
      return (settle task decision input_tokens output_tokens,
        budget.map (·.record input_tokens output_tokens))

end LocalLLMBrain

end

end Sentrik
