import Sentrik.Checks.ProgramRun
import Sentrik.Services.Regression

/-!
# What a positive verdict claims

A validator that says `CONFIRMED` and a regression test that says `still_vulnerable` claim that the
vulnerability was observed again. What has to have been observed is stated here for each class, over the
responses received in the call and without the programs (`Validation.Detects`, `Regression.Detects`).

Three of the programs claim more than they have seen in some of their branches. These branches are
listed as conditions on what the client answered (`Validation.Misreads`, `Regression.Misreads`):

* the redirect programs take every `ScopeViolation` of their call for a blocked redirect, and compare
  the hosts of the location and of the payload also where neither has one;
* the header validators confirm without a request when the recipe has no URL;
* with a URL they confirm whatever the headers of the response are.
-/

namespace Sentrik

/-! ### What is to be observed -/

/-- A request with this value in the parameter was sent and answered by this response. -/
def Probed (log : List Exchange) (param value : Json) (resp : GuardedResponse) : Prop :=
  ∃ query : Query, (query, Except.ok resp) ∈ log ∧ query.Carries [(param, value)]

/-- Some response was received. -/
def Received (log : List Exchange) : Prop := ∃ query resp, (query, Except.ok resp) ∈ log

theorem Probed.received {log : List Exchange} {param value : Json} {resp : GuardedResponse}
    (h : Probed log param value resp) : Received log := by
  obtain ⟨query, hmem, -⟩ := h
  exact ⟨query, resp, hmem⟩

section

variable [u : UnicodeTables] [w : WordTables] [lib : StandardLibrary]

/-- A database error signature in a response, or a boolean differential. -/
def SqlInjection (repro : Dict) (log : List Exchange) : Prop :=
  let param := repro.get "param"
  (∃ value resp, Probed log param value resp ∧ errorSearch resp.text = true) ∨
    ∃ baseline r_true r_false, Probed log param (.text "1") baseline ∧
      Probed log param (repro.get "true_payload") r_true ∧
      Probed log param (repro.get "false_payload") r_false ∧
      (r_true.status_code ≠ r_false.status_code ∨
        lenDiffers r_true.text r_false.text (3 / 10) = true) ∧
      lenDiffers r_true.text baseline.text (3 / 20) = false

/-- An unescaped reflection of the payload in a renderable context. -/
def UnescapedReflection (repro : Dict) (log : List Exchange) : Prop :=
  let payload := repro.getD "payload" (.text "")
  let marker := repro.getD "marker" (.text "")
  ∃ resp, Probed log (repro.get "param") payload resp ∧
    reflectedIn (rawMarker marker payload) (escapedMarker marker) resp.text = .ok true ∧
    renderable_html_context resp.status_code (resp.header "content-type") = true

/-- A `Location` to the host of the payload. -/
def RedirectToPayload (repro : Dict) (log : List Exchange) : Prop :=
  let payload := repro.getD "payload" (.text "")
  ∃ resp host, Probed log (repro.get "param") payload resp ∧ resp.header "location" ≠ [] ∧
    hostnameOf (.str (resp.header "location")) = .ok (some host) ∧
    hostnameOf payload = .ok (some host)

/-- The object of the recipe, retrieved. -/
def ObjectAccess (repro : Dict) (log : List Exchange) : Prop :=
  ∃ query resp, (query, Except.ok resp) ∈ log ∧ resp.status_code = 200 ∧
    Text.hasInfix (repro.getD "object_id" (.text "")).toText resp.text = true

/-- A baseline value accepted, and the out-of-range value accepted and echoed. -/
def OutOfRangeApplied (repro : Dict) (log : List Exchange) : Prop :=
  let param := repro.get "param"
  let payload := (repro.getD "payload" (.text "")).toText
  ∃ baseline probe,
    Probed log param (.str (repro.getD "baseline_value" (.text "1")).toText) baseline ∧
    Probed log param (.str payload) probe ∧
    (200 ≤ baseline.status_code ∧ baseline.status_code < 300) ∧
    (200 ≤ probe.status_code ∧ probe.status_code < 300) ∧ echoesNumber probe.text payload = true

/-- A leak marker under injection that the baseline does not have. -/
def PromptLeak (repro : Dict) (log : List Exchange) : Prop :=
  let param := repro.get "param"
  ∃ baseline injection, Probed log param (repro.getD "baseline" (.text "hello")) baseline ∧
    Probed log param (repro.getD "payload" (.text "")) injection ∧
    leakedMarkers injection.text baseline.text ≠ []

/-- The value was read from a response as the variable of the flow's invariant. -/
def ObservedIn (flow : FlowDefinition) (log : List Exchange) (value : Json) : Prop :=
  ∃ query resp fields key, (query, Except.ok resp) ∈ log ∧
    lib.loads resp.text = .ok (.obj fields) ∧ Dict.get? fields key = some value ∧
    ∃ step ∈ flow.steps, (flow.invariant_var, key) ∈ step.extract

/-- An observed value of a flow above its maximum. -/
def InvariantViolated (repro : Dict) (log : List Exchange) : Prop :=
  ∃ flow ∈ FLOWS, (repro.get "flow").is flow.name = true ∧
    ∃ value numeric, ObservedIn flow log value ∧ lib.float value = .ok numeric ∧
      numeric.gt flow.invariant_max = true

/-! ### Headers -/

/-- The headers a recipe records. -/
def recordedHeaders (repro : Dict) : List Text :=
  ((repro.get "headers").list?.getD []).filterMap fun h ↦
    match h with
    | .str t => some (u.lower t)
    | _ => none

namespace Validation

/-- The fact the detector records is a fact about this response: a recorded header is missing, or
present, or the injected value is in the header that reflected it. -/
def HeaderDetector.Holds (d : HeaderDetector) (repro : Dict) (resp : GuardedResponse) : Prop :=
  let missing := ∃ h ∈ recordedHeaders repro, resp.hasHeader h = false
  let disclosed := ∃ h ∈ recordedHeaders repro, resp.hasHeader h = true
  match d with
  | headers_missing => missing
  | headers_disclosure => disclosed
  | header_presence => if (repro.get "want_present").truthy then disclosed else missing
  | header_reflects =>
    match repro.get "header_value", repro.get "response_header" with
    | .str value, .str name =>
      let echoed := (resp.headers.lookup name).getD []
      Text.hasInfix value echoed = true ∨ echoed = "*".toList
    | _, _ => False

end Validation

/-- The recipe is one of a header detector, and what it records is a fact about this response. -/
def HeaderFact (repro : Dict) (resp : GuardedResponse) : Prop :=
  ∃ d, Validation.Detector.ofRecipe repro = some (.header d) ∧ d.Holds repro resp

/-- What the header detector of the recipe records, observed in a response. -/
def HeaderObserved (repro : Dict) (log : List Exchange) : Prop :=
  ∃ query resp, (query, Except.ok resp) ∈ log ∧ HeaderFact repro resp

/-! ### By class -/

namespace Validation

/-- The condition of a declarative detector. -/
def Detector.Detects (d : Detector) (repro : Dict) (log : List Exchange) : Prop :=
  let param := repro.get "param"
  let payload := repro.getD "payload" (.text "'")
  match d with
  | status_code => ∃ resp trigger, Probed log param payload resp ∧
      triggerStatus (repro.getD "trigger_status" (.arr [.num "500".toList false])) = .ok trigger ∧
      (resp.status_code : ℤ) ∈ trigger
  | error_signature => ∃ resp rx, Probed log param payload resp ∧
      compileSignatures (repro.getD "signatures" (.arr [])) = .ok (some rx) ∧
      lib.search rx resp.text = true
  | reflection => ∃ resp raw, Probed log param (.str raw) resp ∧
      repro.getD "payload" (.text "") = .str raw ∧ raw ≠ [] ∧ Text.hasInfix raw resp.text = true ∧
      (escapeAngles raw = raw ∨ Text.hasInfix (escapeAngles raw) resp.text = false) ∧
      renderable_html_context resp.status_code (resp.header "content-type") = true
  | header _ => HeaderObserved repro log

/-- The condition of a class with a validator of its own. -/
def Validator.Detects : Validator → Dict → List Exchange → Prop
  | sqli => SqlInjection
  | xss => UnescapedReflection
  | open_redirect => RedirectToPayload
  | headers => HeaderObserved
  | business_logic => OutOfRangeApplied
  | business_flow => InvariantViolated
  | prompt_injection => PromptLeak

/-- The condition of a class, with the recipe's detector where the class is none of the built-in. -/
def Detects (check_class : String) (repro : Dict) (log : List Exchange) : Prop :=
  if check_class = "bola" then ObjectAccess repro log
  else
    match dispatch.lookup check_class with
    | some validator => validator.Detects repro log
    | none => ∃ d, Detector.ofRecipe repro = some d ∧ d.Detects repro log

end Validation

namespace Regression

def Runner.Detects : Runner → Dict → List Exchange → Prop
  | sqli => SqlInjection
  | xss => UnescapedReflection
  | open_redirect => RedirectToPayload
  | headers => HeaderObserved

/-- The recipe of a definition and its runner, if it has both. -/
def Detects (definition : Dict) (log : List Exchange) : Prop :=
  ∃ runner repro, runnerOf (definition.get "check_class") = some runner ∧
    definition.getD "reproduction" (.obj []) = .obj repro ∧ runner.Detects repro log

end Regression

/-! ### What is taken for it -/

/-- An answer that a redirect program takes for a redirect to the payload's host though it shows none: a
violation the client raises, or a location where neither it nor the payload has a host. -/
def RedirectMisread.Answer (payload : Json) : Answer → Prop
  | .ok resp => resp.header "location" ≠ [] ∧
      hostnameOf (.str (resp.header "location")) = .ok none ∧ hostnameOf payload = .ok none
  | .error (.client (.ScopeViolation ..)) => True
  | .error _ => False

/-- The call of a redirect program was answered so. -/
def RedirectMisread (repro : Dict) (log : List Exchange) : Prop :=
  ∃ query answer, log = [(query, answer)] ∧
    RedirectMisread.Answer (repro.getD "payload" (.text "")) answer

/-- What a header validator takes for an observation that is none: no URL to fetch, or a response of
which nothing recorded is a fact. -/
def HeaderMisread (repro : Dict) (log : List Exchange) : Prop :=
  (repro.get "url").truthy = false ∨
    ∃ query resp, log = [(query, Except.ok resp)] ∧ ¬HeaderFact repro resp

namespace Validation

def Validator.Misreads : Validator → Dict → List Exchange → Prop
  | open_redirect => RedirectMisread
  | headers => HeaderMisread
  | _ => fun _ _ ↦ False

/-- The branches of a validation in which a positive verdict is not what the class claims. -/
def Misreads (check_class : String) (repro : Dict) (log : List Exchange) : Prop :=
  repro.isEmpty = false ∧ check_class ≠ "bola" ∧
    match dispatch.lookup check_class with
    | some validator => validator.Misreads repro log
    | none => (∃ d, Detector.ofRecipe repro = some (.header d)) ∧ HeaderMisread repro log

end Validation

namespace Regression

/-- The branches of a regression run in which a positive verdict is not what the class claims. -/
def Misreads (definition : Dict) (log : List Exchange) : Prop :=
  runnerOf (definition.get "check_class") = some .open_redirect ∧
    ∃ repro, definition.getD "reproduction" (.obj []) = .obj repro ∧ RedirectMisread repro log

end Regression

end

end Sentrik
