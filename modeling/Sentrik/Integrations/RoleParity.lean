import Sentrik.Integrations.McpServer
import Sentrik.Integrations.A2aServer

/-!
# Three ways in

REST, MCP and A2A reach the same operations: an assessment is created or started, or a check is run
against a target. The REST handlers ask for the operator role. The protocol endpoints authenticate the
same credentials, and carry the **organization** of the principal past authentication, not its role.

So a protocol call is as good as its own gates, whatever the role (`effects_iff`), and the rule of the
REST API holds for a call exactly where the caller is an operator anyway or the gates stop the call
(`role_parity_iff`).
-/

namespace Sentrik

/-- The application the three entry paths lead into. -/
structure Application where
  registry : _Registry
  settings : Settings := {}
  httpx : Httpx
  json_loads : Text → Option Json

/-- A call over one of the three entry paths. A tool call carries the clock readings and the DNS answer
of its gates. -/
inductive EntryCall
  | rest_create (body : Platform.AssessmentCreate)
  | rest_start (assessment_id : Text)
  /-- The tool `run_check`. -/
  | run_check (a : RunCheck) (now : ℤ) (clock : ℚ) (answer : DnsAnswer)
  /-- The tool of one check. -/
  | check_tool (check_name : String) (authorization_id url : Text) (now : ℤ) (clock : ℚ)
    (answer : DnsAnswer)
  | message_send (m : A2aMessage)
  | tasks_cancel (assessment_id : Text)
  /-- Listing tools, reading a report, getting or listing tasks. -/
  | read

def EntryCall.isRest : EntryCall → Bool
  | .rest_create _ | .rest_start _ => true
  | _ => false

section

variable [u : UnicodeTables]

/-- The requests of a tool call. -/
def toolRequests (app : Application) (p : Platform) (principal : Principal) (a : RunCheck) (now : ℤ)
    (clock : ℚ) (answer : DnsAnswer) (traffic : List Event) : List Effect :=
  match _run_check_bound app.registry app.settings app.httpx p a (current_org_id (some principal)) now
      clock answer traffic with
  | .error _ => []
  | .ok sent => sent.map .sent

/-- What a call does, `traffic` being what a check it runs and the target do. -/
def effects (app : Application) (p : Platform) (principal : Principal) (traffic : List Event) :
    EntryCall → List Effect
  | .rest_create body => (p.rest_create_assessment principal body).effects
  | .rest_start id => (p.rest_start_assessment principal id).effects
  | .run_check a now clock answer => toolRequests app p principal a now clock answer traffic
  | .check_tool check_name authorization_id url now clock answer =>
    toolRequests app p principal { authorization_id, check_name, url } now clock answer traffic
  | .message_send m => (p.execute app.json_loads (current_org_id (some principal)) m).effects
  | .tasks_cancel id => (p.cancel (current_org_id (some principal)) id).effects
  | .read => []

/-- The gates of a tool call let it through to a client that can send. -/
def ToolPasses (app : Application) (p : Platform) (org_id : ℕ) (a : RunCheck) (now : ℤ)
    (answer : DnsAnswer) : Prop :=
  ∃ g, bindCheck app.registry app.settings p a (some org_id) now answer = .ok g ∧
    Sendable app.httpx g

/-- The gates of a protocol call let it through. They read the organization of the caller only. -/
def LetThrough (app : Application) (p : Platform) (org_id : ℕ) : EntryCall → Prop
  | .rest_create _ | .rest_start _ | .tasks_cancel _ | .read => False
  | .run_check a now _ answer => ToolPasses app p org_id a now answer
  | .check_tool check_name authorization_id url now _ answer =>
    ToolPasses app p org_id { authorization_id, check_name, url } now answer
  | .message_send m =>
    let req := _parse_request app.json_loads m
    Platform.WellFormed req ∧
      p.Creatable org_id (textField req "target_id") (textField req "authorization_id")

theorem toolRequests_iff {app : Application} {p : Platform} {principal : Principal} {a : RunCheck}
    {now : ℤ} {clock : ℚ} {answer : DnsAnswer} :
    (∃ traffic, toolRequests app p principal a now clock answer traffic ≠ []) ↔
      ToolPasses app p principal.org_id a now answer := by
  simp only [toolRequests, ToolPasses, _run_check_bound, current_org_id, Option.map_some]
  cases hbind : bindCheck app.registry app.settings p a (some principal.org_id) now answer with
  | error e =>
    refine iff_of_false ?_ ?_
    · rintro ⟨traffic, hne⟩
      exact hne rfl
    · rintro ⟨g, hg, -⟩
      cases hg
  | ok g =>
    have hsend : (∃ traffic, requestsOf app.httpx g clock traffic ≠ []) ↔ Sendable app.httpx g :=
      exists_requestsOf (bindCheck_active hbind) clock
    constructor
    · rintro ⟨traffic, hne⟩
      exact ⟨g, rfl, hsend.1 ⟨traffic, fun hnil ↦ hne (congrArg (List.map Effect.sent) hnil)⟩⟩
    · rintro ⟨g', hg', hsendable⟩
      obtain rfl := Except.ok.inj hg'
      obtain ⟨traffic, hne⟩ := hsend.2 hsendable
      exact ⟨traffic, fun hnil ↦ hne (List.map_eq_nil_iff.1 hnil)⟩

/-- **A protocol call is as good as its own gates.** -/
theorem effects_iff {app : Application} {p : Platform} {principal : Principal} {call : EntryCall}
    (hrest : call.isRest = false) :
    (∃ traffic, effects app p principal traffic call ≠ []) ↔
      LetThrough app p principal.org_id call := by
  cases call with
  | rest_create => cases hrest
  | rest_start => cases hrest
  | run_check => exact toolRequests_iff
  | check_tool => exact toolRequests_iff
  | message_send m =>
    refine ⟨fun ⟨_, hne⟩ ↦ Platform.execute_effects_iff.1 hne, fun h ↦ ⟨[], ?_⟩⟩
    exact Platform.execute_effects_iff.2 h
  | tasks_cancel => exact iff_of_false (fun ⟨_, hne⟩ ↦ hne Platform.cancel_effects) id
  | read => exact iff_of_false (fun ⟨_, hne⟩ ↦ hne rfl) id

/-- A REST handler asks for the role itself. -/
theorem rest_role {app : Application} {p : Platform} {principal : Principal} {call : EntryCall}
    (hrest : call.isRest = true) {traffic : List Event}
    (hne : effects app p principal traffic call ≠ []) :
    ROLE_RANK .OPERATOR ≤ ROLE_RANK principal.role := by
  cases call with
  | rest_create => exact Platform.rest_create_role hne
  | rest_start => exact Platform.rest_start_role hne
  | _ => cases hrest

theorem not_letThrough_rest {app : Application} {p : Platform} {org_id : ℕ} {call : EntryCall}
    (hrest : call.isRest = true) : ¬LetThrough app p org_id call := by
  cases call with
  | rest_create => exact not_false
  | rest_start => exact not_false
  | _ => cases hrest

/-- **Role parity.** A call over any of the three entry paths has an effect only for an operator or
above, whatever the checks and the targets do, exactly where the caller is one or the call is not let
through by gates that read the organization only. -/
theorem role_parity_iff (app : Application) (p : Platform) (principal : Principal) (call : EntryCall) :
    (∀ traffic, effects app p principal traffic call ≠ [] →
        ROLE_RANK .OPERATOR ≤ ROLE_RANK principal.role) ↔
      ROLE_RANK .OPERATOR ≤ ROLE_RANK principal.role ∨ ¬LetThrough app p principal.org_id call := by
  cases hrest : call.isRest with
  | true => exact iff_of_true (fun _ hne ↦ rest_role hrest hne) (Or.inr (not_letThrough_rest hrest))
  | false =>
    rw [← effects_iff hrest]
    constructor
    · intro h
      by_cases hrole : ROLE_RANK .OPERATOR ≤ ROLE_RANK principal.role
      · exact Or.inl hrole
      · exact Or.inr fun ⟨traffic, hne⟩ ↦ hrole (h traffic hne)
    · rintro (hrole | hnone) traffic hne
      · exact hrole
      · exact absurd ⟨traffic, hne⟩ hnone

end

section

attribute [local instance] asciiTables

/-- An application without checks. -/
def sampleApplication : Application where
  registry := .empty
  httpx := referenceHttpx
  json_loads := fun _ ↦ none

/-- One target with a verified authorization. -/
def samplePlatform : Platform where
  targets := [{
    id := 1
    org_id := 1
    name := "app".toList
    base_url := "https://app.example".toList
    environment := "production"
    description := [] }]
  records := [{ id := 2, record := sampleRecord }]
  nextId := 3

/-- A message that asks for an assessment of that target. -/
def sampleMessage : A2aMessage where
  parts := [.obj [("target_id".toList, .str "1".toList), ("authorization_id".toList, .str "2".toList)]]

def Effect.started? : Effect → Option ℕ
  | .started id => some id
  | _ => none

/-- A viewer starts an assessment with it. -/
theorem sampleMessage_starts :
    ROLE_RANK .VIEWER < ROLE_RANK .OPERATOR ∧
      (effects sampleApplication samplePlatform ⟨1, 1, .VIEWER, .api_key⟩ []
        (.message_send sampleMessage)).filterMap Effect.started? = [3] := by
  decide +kernel

end

end Sentrik
