import Sentrik.Checks.Builtin

/-!
# Declarative checks at work

What a declarative check does when it runs is written in the `detector` of its manifest, a decoded
document. `build_declarative_check` accepts a manifest whose detector names one of the known types, and
reads the rest of it for the planner (`readManifest`); what the detector needs is read when it runs.
-/

namespace Sentrik

open Interaction (request firstHit)

namespace Checks

/-! ### Types of detector -/

inductive DetectorType
  | error_signature | reflection | status_code | header_missing | header_present | header_reflects
  deriving DecidableEq, Repr

/-- The types by their names. -/
def detectorTypes : List (Text × DetectorType) := [
  ("error_signature".toList, .error_signature),
  ("reflection".toList, .reflection),
  ("status_code".toList, .status_code),
  ("header_missing".toList, .header_missing),
  ("header_present".toList, .header_present),
  ("header_reflects".toList, .header_reflects) ]

/-- The type a detector names. -/
def DetectorType.ofDetector (detector : Dict) : Option DetectorType :=
  match detector.get "type" with
  | .str name => detectorTypes.lookup name
  | _ => none

/-! ### Loading -/

/-- A declarative check, with the detector it runs. -/
structure LoadedCheck where
  check : DeclarativeCheck
  detector : Dict

section

variable [u : UnicodeTables]

/-- The manifest as planning and policy read it. -/
def readManifest (manifest : Dict) (type : Text) : Except Raised Manifest := do
  let environments ← ((manifest.get "allowed_environments").or (.arr [])).iter
  let value (key default : String) := String.ofList (manifest.getD key (.text default)).toText
  return {
    name := value "name" "declarative.unnamed"
    version := value "version" "1.0.0"
    check_class := value "check_class" "info_disclosure"
    intensity := value "intensity" "passive"
    state_changing := (manifest.get "state_changing").truthy
    allowed_environments := environments.map fun e ↦ String.ofList e.toText
    detector := some (String.ofList type)
    skill_ref := value "skill_ref" "" }

/-- The check of a stored manifest, if it can be run. -/
def build_declarative_check (manifest : Dict) : Except Raised (Option LoadedCheck) :=
  match manifest.get "detector" with
  | .obj detector =>
    match Dict.get detector "type" with
    | .str type =>
      match readManifest manifest type with
      | .ok m => .ok ((Sentrik.build_declarative_check m).map fun check ↦ ⟨check, detector⟩)
      | .error _ => .ok none
    | .arr _ | .obj _ => .error .TypeError
    | _ => .ok none
  | _ => .ok none

/-! ### Running -/

namespace LoadedCheck

def _finding (c : LoadedCheck) (repro : Dict) : RawFinding :=
  ⟨c.check._class, repro.setItem "declarative".toList (.text c.check.name)⟩

/-- The recipe of a payload in a parameter, with what the detector adds to it. -/
def _injected (c : LoadedCheck) (ctx : CheckContext) (name : Json) (payload : Text)
    (detector : List (String × Json)) : RawFinding :=
  c._finding (Dict.recipe ([
    ("method", .str ctx.endpoint.method),
    ("url", .str ctx.endpoint.url),
    ("param", name),
    ("payload", .str payload)] ++ detector))

def payloads (c : LoadedCheck) (ctx : CheckContext) : Except Raised (List Text) := do
  let items ← (c.detector.getD "payloads" (.arr [.text "'"])).iter
  return upTo (items.map Json.toText) ctx.max_payloads

/-- Send every payload in every parameter until one response is a finding. -/
def inject (c : LoadedCheck) (ctx : CheckContext) (payloads : List Text)
    (triggers : GuardedResponse → Bool) (detector : List (String × Json)) :
    Program (List RawFinding) := do
  let found ← firstHit (fun param : Dict ↦ do
      let name ← MonadExcept.ofExcept (param.item "name")
      firstHit (fun payload ↦ do
        let resp ← ctx._send (override name (.str payload)) none
        if triggers resp then return some (c._injected ctx name payload detector)
        else return none) payloads)
    (upTo ctx.params ctx.max_payloads)
  return found.toList

variable [lib : StandardLibrary]

def _error_signature (c : LoadedCheck) (ctx : CheckContext) : Program (List RawFinding) := do
  let payloads ← MonadExcept.ofExcept (c.payloads ctx)
  let sigs := c.detector.getD "signatures" (.arr [])
  match ← MonadExcept.ofExcept (compileSignatures sigs) with
  | none => return []
  | some rx =>
    let items ← MonadExcept.ofExcept sigs.iter
    c.inject ctx payloads (fun resp ↦ lib.search rx resp.text)
      [("detector", .text "error_signature"), ("signatures", .arr items)]

/-- The value of an integer. -/
def ofInt (n : ℤ) : Json := .num (toString n).toList (n = 0)

def _status_code (c : LoadedCheck) (ctx : CheckContext) : Program (List RawFinding) := do
  let payloads ← MonadExcept.ofExcept (c.payloads ctx)
  let trigger ← MonadExcept.ofExcept
    (triggerStatus (c.detector.getD "trigger_status" (.arr [.num "500".toList false])))
  c.inject ctx payloads (fun resp ↦ trigger.contains (resp.status_code : ℤ))
    [("detector", .text "status_code"),
      ("trigger_status", .arr ((trigger.dedup.insertionSort (· ≤ ·)).map ofInt))]

/-- `template.format(token=token)` -/
def formatMarker (template : Json) (token : Text) : Except Raised Text := do
  lib.format (← template.asText) [("token".toList, token)]

def _reflection (c : LoadedCheck) (ctx : CheckContext) : Program (List RawFinding) := do
  let template := c.detector.getD "marker_template" (.text "<zzz{token}>")
  let found ← firstHit (fun param : Dict × ℕ ↦ do
      let name ← MonadExcept.ofExcept (param.1.item "name")
      let token := (ctx.tokens param.2).text
      let marker ← MonadExcept.ofExcept (formatMarker template token)
      let resp ← ctx._send (override name (.str marker)) none
      if !renderable_html_context resp.status_code (resp.header "content-type") then return none
      else
        let escaped := escapeAngles marker
        if Text.hasInfix marker resp.text ∧
            (escaped = marker ∨ Text.hasInfix escaped resp.text = false) then
          return some (c._injected ctx name marker [
            ("marker", .str token),
            ("marker_template", template),
            ("detector", .text "reflection")])
        else return none)
    (upTo ctx.injectable_params ctx.max_payloads).zipIdx
  return found.toList

def _header_presence (c : LoadedCheck) (ctx : CheckContext) (want_present : Bool) :
    Program (List RawFinding) := do
  let items ← MonadExcept.ofExcept (c.detector.getD "headers" (.arr [])).iter
  let headers ← MonadExcept.ofExcept (items.mapM fun h ↦ u.lower <$> h.asText)
  if headers.isEmpty then return []
  else
    let resp ← ctx._send (.ok []) none
    let present := resp.headers.map fun h ↦ u.lower h.1
    let hit := headers.filter fun h ↦ present.contains h == want_present
    if hit.isEmpty then return []
    else
      return [c._finding (Dict.recipe [
        ("method", .text "GET"),
        ("url", .str ctx.endpoint.url),
        ("detector", .text "header_presence"),
        ("headers", .arr (hit.map .str)),
        ("want_present", .bool want_present)])]

/-- The value of a header, the names in lower case. -/
def lowerHeader (resp : GuardedResponse) (name : Text) : Text :=
  ((resp.headers.reverse.map fun h ↦ (u.lower h.1, h.2)).lookup name).getD []

/-- The response header echoes the value, and the required header has the required value. -/
def reflects (c : LoadedCheck) (resp : GuardedResponse) (value : Json) (resp_header : Text) :
    Except Raised Bool := do
  let echoed := lowerHeader resp resp_header
  let inEchoed ← value.isIn echoed
  if !inEchoed && echoed ≠ ['*'] then return false
  else
    let require_header := c.detector.get "require_header"
    if require_header.truthy then
      let rv := lowerHeader resp (u.lower require_header.toText)
      return Text.hasInfix (u.lower (c.detector.getD "require_value" (.text "")).toText) (u.lower rv)
    else return true

def _header_reflects (c : LoadedCheck) (ctx : CheckContext) : Program (List RawFinding) := do
  let req_header := c.detector.get "request_header"
  let value := c.detector.getD "header_value" (.text "https://evil.example.net")
  let resp_header := u.lower (c.detector.getD "response_header" (.text "")).toText
  if !req_header.truthy || resp_header.isEmpty then return []
  else
    let headers ← MonadExcept.ofExcept (override req_header value)
    let resp ← ctx._send (.ok []) (some headers)
    if ← MonadExcept.ofExcept (c.reflects resp value resp_header) then
      return [c._finding (Dict.recipe [
        ("method", .text "GET"),
        ("url", .str ctx.endpoint.url),
        ("detector", .text "header_reflects"),
        ("request_header", req_header),
        ("header_value", value),
        ("response_header", .str resp_header)])]
    else return []

/-- The program of a type of detector. -/
def detect (c : LoadedCheck) (ctx : CheckContext) : DetectorType → Program (List RawFinding)
  | .error_signature => c._error_signature ctx
  | .reflection => c._reflection ctx
  | .status_code => c._status_code ctx
  | .header_missing => c._header_presence ctx false
  | .header_present => c._header_presence ctx true
  | .header_reflects => c._header_reflects ctx

def run (c : LoadedCheck) (ctx : CheckContext) : Program (List RawFinding) := do
  match DetectorType.ofDetector c.detector with
  | none => return []
  | some type => return (← reached (c.detect ctx type)).getD []

end LoadedCheck

/-! ### Either kind -/

/-- A manifest that is accepted. -/
structure AcceptedManifest where
  manifest : Dict
  check : LoadedCheck
  accepted : build_declarative_check manifest = .ok (some check)

/-- A check of either kind, but for the one of flows. -/
inductive DetectingCheck
  | builtin (c : BuiltinCheck)
  | declarative (m : AcceptedManifest)

def DetectingCheck.run [WordTables] [StandardLibrary] :
    DetectingCheck → CheckContext → Program (List RawFinding)
  | builtin c, ctx => c.run ctx
  | declarative m, ctx => m.check.run ctx

end

end Checks

end Sentrik
