import Sentrik.Checks.Detection

/-!
# Independent validation of suspected findings

A validator receives the class and the reproduction recipe of a finding and executes the proof again.
A recipe is a decoded document, with no check that any key is there or of a certain type.

Each validator is the program of the source, exchange by exchange; the evidence of an outcome is the
response it is built from.
-/

namespace Sentrik

open Interaction (request attempt)

structure ValidationOutcome where
  outcome : FindingStatus
  method : String
  detail : String
  evidence : Option GuardedResponse := none

namespace Validation

section

variable [u : UnicodeTables] [w : WordTables] [lib : StandardLibrary]

def _send (method url : Json) (overrides : Except Raised Overrides) : Program GuardedResponse :=
  sendOverrides method url overrides

/-- The default threshold is `0.30`. -/
def _len_differs (a b : Text) (threshold : Option ℚ) : Bool :=
  lenDiffers a b (threshold.getD (3 / 10))

def _echoes_value (body value : Text) : Bool := echoesNumber body value

/-! ### Built-in classes -/

def _validate_sqli (repro : Dict) : Program ValidationOutcome := do
  let url := repro.get "url"
  let param := repro.get "param"
  let method := repro.getD "method" (.text "GET")
  let detector := repro.get "detector"
  if detector.is "db_error_signature".toList then
    let resp ← _send method url (override param (repro.getD "payload" (.text "'")))
    if errorSearch resp.text then
      return ⟨.CONFIRMED, "independent_replay", "DB error signature reproduced independently", resp⟩
    else
      -- one more canonical payload before rejecting
      let resp2 ← _send method url (override param (.text "'\""))
      if errorSearch resp2.text then
        return ⟨.CONFIRMED, "independent_replay", "DB error reproduced with alternate payload", resp2⟩
      else
        return ⟨.REJECTED, "independent_replay", "no DB error signature on independent replay", none⟩
  else if detector.is "boolean_differential".toList then
    let baseline ← _send method url (override param (.text "1"))
    let r_true ← _send method url (override param (repro.get "true_payload"))
    let r_false ← _send method url (override param (repro.get "false_payload"))
    let differs := r_true.status_code ≠ r_false.status_code || _len_differs r_true.text r_false.text none
    let true_close := !_len_differs r_true.text baseline.text (some (3 / 20))
    if differs && true_close then
      return ⟨.CONFIRMED, "boolean_differential", "boolean differential reproduced", r_true⟩
    else if differs then
      return ⟨.SUSPECTED, "boolean_differential", "differential present but weaker than reported", none⟩
    else
      return ⟨.REJECTED, "boolean_differential", "no boolean differential on replay", none⟩
  else
    return ⟨.INCONCLUSIVE, "unknown_detector", String.ofList detector.toText, none⟩

def _validate_xss (repro : Dict) : Program ValidationOutcome := do
  let payload := repro.getD "payload" (.text "")
  let marker := repro.getD "marker" (.text "")
  let resp ← _send (repro.getD "method" (.text "GET")) (repro.get "url")
    (override (repro.get "param") payload)
  let escaped := escapedMarker marker
  if ← MonadExcept.ofExcept (reflectedIn (rawMarker marker payload) escaped resp.text) then
    let ctype := resp.header "content-type"
    if !renderable_html_context resp.status_code ctype then
      let detail := s!"reflection is in a non-renderable context (status {resp.status_code}, " ++
        s!"content-type {Text.repr ctype}); not executable"
      return ⟨.REJECTED, "independent_replay", detail, resp⟩
    else
      return ⟨.CONFIRMED, "independent_replay",
        "unescaped reflection reproduced in an HTML response", resp⟩
  else if escaped ≠ [] ∧ Text.hasInfix escaped resp.text then
    return ⟨.REJECTED, "independent_replay", "reflection is HTML-escaped (safe)", none⟩
  else
    return ⟨.REJECTED, "independent_replay", "payload not reflected on replay", none⟩

/-- The first active session of a role. -/
def attackerSession (sessions : List AuthSession) (attacker_role : Text) : Option AuthSession :=
  sessions.find? fun s ↦ s.role_name = attacker_role && !s.expired

def _validate_bola (repro : Dict) (sessions : List AuthSession) : Program ValidationOutcome := do
  let url := repro.get "url"
  let obj := (repro.getD "object_id" (.text "")).toText
  let attacker_role := (repro.getD "attacker_role" (.text "")).toText
  let role := Text.repr attacker_role
  if !url.truthy || obj = [] then
    return ⟨.INCONCLUSIVE, "no_recipe", "bola recipe incomplete", none⟩
  else
    match ← attempt (request { url }) with
    | .error (.client (.TargetUnreachable _)) =>
      return ⟨.INCONCLUSIVE, "unreachable", "object endpoint unreachable", none⟩
    | .error exc => throw exc
    | .ok anon =>
      if anon.status_code = 200 ∧ Text.hasInfix obj anon.text then
        return ⟨.CONFIRMED, "anon_access", "object retrievable without authentication", anon⟩
      else
        match attackerSession sessions attacker_role with
        | none =>
          return ⟨.SUSPECTED, "controlled_access",
            s!"no active session for attacker role {role}; cross-account re-proof not possible", none⟩
        | some attacker =>
          match ← attempt (request { url, headers := some attacker.headers }) with
          | .error (.client (.TargetUnreachable _)) =>
            return ⟨.INCONCLUSIVE, "unreachable", "object endpoint unreachable", none⟩
          | .error exc => throw exc
          | .ok as_attacker =>
            let status := as_attacker.status_code
            if status = 200 ∧ Text.hasInfix obj as_attacker.text then
              let victim := String.ofList (repro.getD "victim_role" (.text "?")).repr
              return ⟨.CONFIRMED, "cross_account_session",
                s!"role {role} retrieved object {String.ofList obj} owned by {victim}; " ++
                  "anonymous request did not", as_attacker⟩
            else if status ∈ [401, 403, 404] then
              return ⟨.REJECTED, "cross_account_session",
                s!"object not returned to role {role} (status {status})", as_attacker⟩
            else
              return ⟨.INCONCLUSIVE, "cross_account_session",
                s!"unexpected status {status} during re-proof", as_attacker⟩

def _validate_business_logic (repro : Dict) : Program ValidationOutcome := do
  let url := repro.get "url"
  let param := repro.get "param"
  let payload := (repro.getD "payload" (.text "")).toText
  let baseline_value := (repro.getD "baseline_value" (.text "1")).toText
  let method := u.upper (repro.getD "method" (.text "GET")).toText
  if !url.truthy || !param.truthy then
    return ⟨.INCONCLUSIVE, "no_recipe", "business-logic recipe incomplete", none⟩
  else
    let baseline ← _send (.str method) url (override param (.str baseline_value))
    let probe ← _send (.str method) url (override param (.str payload))
    if ¬(200 ≤ baseline.status_code ∧ baseline.status_code < 300) then
      return ⟨.INCONCLUSIVE, "numeric_bounds",
        s!"baseline value rejected with {baseline.status_code}; cannot compare", baseline⟩
    else if (200 ≤ probe.status_code ∧ probe.status_code < 300) ∧ _echoes_value probe.text payload then
      return ⟨.CONFIRMED, "numeric_bounds", s!"out-of-range value {Text.repr payload} for " ++
        s!"{String.ofList param.repr} accepted and applied", probe⟩
    else if 400 ≤ probe.status_code then
      return ⟨.REJECTED, "numeric_bounds",
        s!"out-of-range value now rejected ({probe.status_code})", probe⟩
    else
      return ⟨.SUSPECTED, "numeric_bounds",
        "value accepted but not observably applied in the response", probe⟩

def _validate_prompt_injection (repro : Dict) : Program ValidationOutcome := do
  let url := repro.get "url"
  let param := repro.get "param"
  if !url.truthy || !param.truthy then
    return ⟨.INCONCLUSIVE, "no_recipe", "prompt-injection recipe incomplete", none⟩
  else
    let benign ← MonadExcept.ofExcept (override param (repro.getD "baseline" (.text "hello")))
    let baseline ← request { url, params := some benign }
    let probe ← MonadExcept.ofExcept (override param (repro.getD "payload" (.text "")))
    let injection ← request { url, params := some probe }
    let leaked := leakedMarkers injection.text baseline.text
    if leaked ≠ [] then
      let names := String.intercalate ", " (leaked.map String.ofList)
      return ⟨.CONFIRMED, "prompt_injection",
        s!"injection leaked markers not present in baseline: {names}", none⟩
    else
      return ⟨.REJECTED, "prompt_injection",
        "no system-prompt/secret leak under injection on re-run", none⟩

/-- Send the payload without following redirects, and look where the location points. -/
def openRedirect {α : Type} (blocked : α) (pointed absent : GuardedResponse → α) (repro : Dict) :
    Program α := do
  let payload := repro.getD "payload" (.text "")
  let overrides ← MonadExcept.ofExcept (override (repro.get "param") payload)
  match ← attempt (request { url := repro.get "url", params := some overrides, max_redirects := 0 }) with
  | .error (.client (.ScopeViolation ..)) => return blocked
  | .error exc => throw exc
  | .ok resp =>
    if ← MonadExcept.ofExcept (pointsTo (resp.header "location") payload) then return pointed resp
    else return absent resp

def _validate_open_redirect : Dict → Program ValidationOutcome :=
  openRedirect
    ⟨.CONFIRMED, "guard_blocked_redirect",
      "app attempted redirect to attacker host (blocked at boundary)", none⟩
    (fun resp ↦ ⟨.CONFIRMED, "location_header", "Location header points to attacker host", resp⟩)
    fun _ ↦ ⟨.REJECTED, "location_header", "redirect not reproduced", none⟩

def _validate_headers (repro : Dict) : Program ValidationOutcome := do
  let url := repro.get "url"
  if !url.truthy then
    return ⟨.CONFIRMED, "deterministic", "header assessment is deterministic from capture", none⟩
  else
    match ← attempt (request { url }) with
    | .error (.client (.TargetUnreachable _)) =>
      return ⟨.SUSPECTED, "unreachable", "could not re-fetch", none⟩
    | .error exc => throw exc
    | .ok resp => return ⟨.CONFIRMED, "independent_replay", "headers re-observed", resp⟩

/-! ### Flows -/

/-- Read the variables of a step: their values as text, and the value of the invariant's variable. -/
def readVariables (flow : FlowDefinition) (data : Json) :
    List (Text × Text) → List (Text × Text) → Option Json →
      Except ValidationOutcome (List (Text × Text) × Option Json)
  | [], vars, observed => .ok (vars, observed)
  | (var, key) :: rest, vars, observed =>
    match data.dict?.bind (·.get? key) with
    | none | some .null =>
      .error ⟨.INCONCLUSIVE, "extract_failed", s!"could not read {String.ofList key}", none⟩
    | some value =>
      readVariables flow data rest (vars.filter (·.1 ≠ var) ++ [(var, value.toText)])
        (if var = flow.invariant_var then some value else observed)

/-- The verdict on the value observed last. -/
def judgeObserved (flow : FlowDefinition) (observed : Option Json) : Program ValidationOutcome :=
  match observed.map lib.float with
  | none | some (.error .ValueError) | some (.error .TypeError) =>
    return ⟨.INCONCLUSIVE, "no_value", "no invariant value", none⟩
  | some (.error exc) => throw exc
  | some (.ok numeric) =>
    let shown := s!"{String.ofList flow.invariant_var}={lib.render numeric}"
    if numeric.gt flow.invariant_max then
      return ⟨.CONFIRMED, "flow_replay", s!"{shown} exceeds single-use max {flow.invariant_max}", none⟩
    else return ⟨.REJECTED, "flow_replay", s!"{shown} within bounds on re-run", none⟩

/-- The document of a response, an empty one if it cannot be decoded. -/
def loadsOrEmpty (text : Text) : Except Raised Json :=
  match lib.loads text with
  | .error .ValueError | .error .TypeError => .ok (.obj [])
  | data => data

/-- The call of a step. -/
def stepQuery (step : FlowStep) (url : Json) : Query :=
  if u.upper step.method = "GET".toList then
    { url, params := if step.params.isEmpty then none else some step.params }
  else
    { method := "POST".toList, url
      json := if step.json_body.isEmpty then none else some step.json_body }

/-- Execute the steps that are left. -/
def runSteps (flow : FlowDefinition) (origin : Json) :
    List FlowStep → List (Text × Text) → Option Json → Program ValidationOutcome
  | [], _, observed => judgeObserved flow observed
  | step :: rest, vars, observed => do
    let path ← MonadExcept.ofExcept
      (if vars = [] then .ok step.path else lib.format step.path vars)
    let url ← MonadExcept.ofExcept
      (match origin with
        | .str t => .ok (Json.str (t ++ path))
        | _ => .error .TypeError)
    let resp ← request (stepQuery step url)
    if resp.status_code ∉ step.expect_status then
      return ⟨.REJECTED, "flow_blocked", s!"flow step {String.ofList step.method} " ++
        s!"{String.ofList path} returned {resp.status_code}; invariant holds", none⟩
    else
      let data ← MonadExcept.ofExcept (loadsOrEmpty resp.text)
      match readVariables flow data step.extract vars observed with
      | .error outcome => return outcome
      | .ok (vars, observed) => runSteps flow origin rest vars observed

def _validate_business_flow (repro : Dict) : Program ValidationOutcome :=
  let origin := repro.get "origin"
  match FLOWS.find? fun f ↦ (repro.get "flow").is f.name with
  | none => return ⟨.INCONCLUSIVE, "no_recipe", "flow recipe incomplete", none⟩
  | some flow =>
    if !origin.truthy then return ⟨.INCONCLUSIVE, "no_recipe", "flow recipe incomplete", none⟩
    else runSteps flow origin flow.steps [] none

/-! ### Declarative detectors -/

/-- What the header-shaped detectors record. -/
inductive HeaderDetector
  | headers_missing | headers_disclosure | header_presence | header_reflects
  deriving DecidableEq, Repr

/-- The detectors of recipes of declarative checks. -/
inductive Detector
  | status_code
  | error_signature
  | reflection
  | header (d : HeaderDetector)
  deriving DecidableEq, Repr

/-- The detectors by their names. -/
def detectors : List (Text × Detector) := [
  ("status_code".toList, .status_code),
  ("error_signature".toList, .error_signature),
  ("reflection".toList, .reflection),
  ("headers_missing".toList, .header .headers_missing),
  ("headers_disclosure".toList, .header .headers_disclosure),
  ("header_presence".toList, .header .header_presence),
  ("header_reflects".toList, .header .header_reflects) ]

/-- The detector a recipe names. -/
def Detector.ofRecipe (repro : Dict) : Option Detector :=
  match repro.get "detector" with
  | .str name => detectors.lookup name
  | _ => none

def _validate_declarative (repro : Dict) : Program ValidationOutcome := do
  let url := repro.get "url"
  let param := repro.get "param"
  let method := repro.getD "method" (.text "GET")
  match Detector.ofRecipe repro with
  | some .status_code =>
    let trigger ← MonadExcept.ofExcept
      (triggerStatus (repro.getD "trigger_status" (.arr [.num "500".toList false])))
    let resp ← _send method url (override param (repro.getD "payload" (.text "'")))
    if (resp.status_code : ℤ) ∈ trigger then
      return ⟨.CONFIRMED, "status_code", s!"status {resp.status_code} reproduced", resp⟩
    else return ⟨.REJECTED, "status_code", "trigger status not reproduced", none⟩
  | some .error_signature =>
    let rx ← MonadExcept.ofExcept (compileSignatures (repro.getD "signatures" (.arr [])))
    let resp ← _send method url (override param (repro.getD "payload" (.text "'")))
    if rx.any (lib.search · resp.text) then
      return ⟨.CONFIRMED, "error_signature", "signature reproduced", resp⟩
    else return ⟨.REJECTED, "error_signature", "signature not reproduced", none⟩
  | some .reflection =>
    let raw := repro.getD "payload" (.text "")
    let resp ← _send method url (override param raw)
    let payload ← MonadExcept.ofExcept raw.asText
    let escaped := escapeAngles payload
    if (payload ≠ [] ∧ Text.hasInfix payload resp.text) ∧
        (escaped = payload ∨ Text.hasInfix escaped resp.text = false) then
      let ctype := resp.header "content-type"
      if !renderable_html_context resp.status_code ctype then
        let detail := s!"reflection is in a non-renderable context (status {resp.status_code}, " ++
          s!"content-type {Text.repr ctype})"
        return ⟨.REJECTED, "reflection", detail, resp⟩
      else
        return ⟨.CONFIRMED, "reflection", "unescaped reflection reproduced in an HTML response", resp⟩
    else return ⟨.REJECTED, "reflection", "reflection not reproduced", none⟩
  | some (.header _) =>
    if !url.truthy then
      return ⟨.CONFIRMED, "deterministic", "header assessment is deterministic from capture", none⟩
    else
      let resp ← _send (.text "GET") url (.ok [])
      return ⟨.CONFIRMED, "header_reobserved", "headers re-observed", resp⟩
  | none =>
    return ⟨.INCONCLUSIVE, "unknown_detector", String.ofList (repro.get "detector").toText, none⟩

/-! ### Dispatch -/

/-- The validators that take the recipe only. -/
inductive Validator
  | sqli | xss | open_redirect | headers | business_logic | business_flow | prompt_injection
  deriving DecidableEq, Repr

def Validator.validate : Validator → Dict → Program ValidationOutcome
  | sqli => _validate_sqli
  | xss => _validate_xss
  | open_redirect => _validate_open_redirect
  | headers => _validate_headers
  | business_logic => _validate_business_logic
  | business_flow => _validate_business_flow
  | prompt_injection => _validate_prompt_injection

def dispatch : List (String × Validator) := [
  ("sqli", .sqli),
  ("xss", .xss),
  ("open_redirect", .open_redirect),
  ("security_headers", .headers),
  ("info_disclosure", .headers),
  ("business_logic", .business_logic),
  ("business_flow", .business_flow),
  ("llm_prompt_injection", .prompt_injection) ]

/-- The body under the handlers: first by class, then by detector. -/
def dispatched (check_class : String) (reproduction : Dict) (sessions : List AuthSession) :
    Program ValidationOutcome :=
  if check_class = "bola" then _validate_bola reproduction sessions
  else
    match dispatch.lookup check_class with
    | some validator => validator.validate reproduction
    | none =>
      if (reproduction.get "detector").truthy then _validate_declarative reproduction
      else
        return ⟨.INCONCLUSIVE, "no_validator", s!"no independent validator for {check_class}", none⟩

/-- Re-prove a finding from its reproduction recipe. -/
def validate_finding (check_class : String) (reproduction : Dict) (sessions : List AuthSession) :
    Program ValidationOutcome := do
  if reproduction.isEmpty then
    return ⟨.INCONCLUSIVE, "no_recipe", "finding has no reproduction recipe", none⟩
  else
    match ← attempt (dispatched check_class reproduction sessions) with
    | .ok outcome => return outcome
    | .error (.client (.ScopeViolation reason ..)) =>
      return ⟨.INCONCLUSIVE, "scope_blocked", s!"validation blocked by scope: {reason}", none⟩
    | .error (.client (.TargetUnreachable message)) =>
      return ⟨.INCONCLUSIVE, "unreachable", message, none⟩
    | .error exc => throw exc

end

end Validation

end Sentrik
