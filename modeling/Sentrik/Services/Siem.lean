import Sentrik.Library.Escaping
import Sentrik.Library.JsonReader
import Sentrik.Library.Bytes

/-!
# Security events for a SIEM

Confirmed findings as security events, serialized one line per event: as JSON documents of the Elastic Common
Schema, or as ArcSight CEF lines.

The readers are those of the two formats. An ECS line is a JSON document. A CEF line has seven header fields,
split at bars that are not escaped, and pairs behind them, split at equals signs that are not escaped: a value
goes to the blank in front of the next key. A backslash escapes what follows it; where a key comes more
than once, the first one counts.
-/

namespace Siem

/-! ### Events -/

structure SecurityEvent where
  event_id : Text
  assessment_id : Text
  org_id : Text
  check_class : Text
  title : Text
  severity : Text
  status : Text
  cwe : Text
  endpoint_url : Text
  skill_ref : Text
  detected_at : Text

def _SEVERITY_TO_NUM : List (Text × ℕ) :=
  [("critical".toList, 10), ("high".toList, 8), ("medium".toList, 5), ("low".toList, 3),
    ("info".toList, 1)]

/-- `_SEVERITY_TO_NUM.get(severity, 1)` -/
def severityNum (severity : Text) : ℕ := (_SEVERITY_TO_NUM.lookup severity).getD 1

/-- A number in a document. -/
def number (n : ℕ) : Json := .num (Text.decimal n) (JsonText.isZero (Text.decimal n))

namespace SecurityEvent

/-- The document of an event. -/
def to_ecs (e : SecurityEvent) : Json := .obj [
  ("@timestamp".toList, .str e.detected_at),
  ("event".toList, .obj [
    ("kind".toList, .str "alert".toList),
    ("category".toList, .arr [.str "vulnerability".toList]),
    ("type".toList, .arr [.str "info".toList]),
    ("id".toList, .str e.event_id),
    ("severity".toList, number (severityNum e.severity)),
    ("provider".toList, .str "sentrik".toList),
    ("dataset".toList, .str "sentrik.finding".toList)]),
  ("vulnerability".toList, .obj [
    ("category".toList, .arr [.str e.check_class]),
    ("classification".toList, .str e.cwe),
    ("severity".toList, .str e.severity),
    ("description".toList, .str e.title),
    ("scanner".toList, .obj [("vendor".toList, .str "Sentrik".toList)])]),
  ("url".toList, .obj [("full".toList, .str e.endpoint_url)]),
  ("organization".toList, .obj [("id".toList, .str e.org_id)]),
  ("sentrik".toList, .obj [
    ("assessment_id".toList, .str e.assessment_id),
    ("status".toList, .str e.status),
    ("skill_ref".toList, .str e.skill_ref)])]

/-- `str.replace` of one character. -/
def replace (c : Char) (new : Text) (t : Text) : Text := t.flatMap fun d ↦ if d = c then new else [d]

/-- The pairs behind the header. -/
def ext (e : SecurityEvent) : Text :=
  "cs1Label=assessmentId cs1=".toList ++ e.assessment_id ++
    " cs2Label=cwe cs2=".toList ++ e.cwe ++
    " cs3Label=skillRef cs3=".toList ++ e.skill_ref ++
    " request=".toList ++ e.endpoint_url ++
    " outcome=".toList ++ e.status ++ " rt=".toList ++ e.detected_at

/-- The line of an event. -/
def to_cef [UnicodeTables] (e : SecurityEvent) : Text :=
  let name := replace '=' "\\=".toList (replace '|' "\\|".toList e.title)
  Text.strip ("CEF:0|Sentrik|Sentrik|1.0|".toList ++ e.check_class ++ "|".toList ++ name ++
    "|".toList ++ Text.decimal (severityNum e.severity) ++ "|".toList ++ e.ext)

end SecurityEvent

/-- The line of each event, and a line feed behind the last. -/
def payloadOf (lines : List Text) : Text :=
  List.intercalate "\n".toList lines ++ (if lines = [] then [] else "\n".toList)

/-- The payload and its content type. -/
def serialize [UnicodeTables] (events : List SecurityEvent) (fmt : Text) : Text × Text :=
  if fmt = "cef".toList then (payloadOf (events.map SecurityEvent.to_cef), "text/plain".toList)
  else (payloadOf (events.map fun e ↦ JsonText.print e.to_ecs), "application/x-ndjson".toList)

/-! ### Readers -/

/-- The lines of a payload, each ended by a line feed. -/
def lines (payload : Text) : List Text :=
  let parts := Text.split '\n' payload
  if parts.getLast? = some [] then parts.dropLast else parts

/-- What is to be recovered of an event. -/
structure Reported where
  check_class : Text
  title : Text
  severity : ℕ
  url : Text
  cwe : Text
  skill_ref : Text
  assessment_id : Text
  status : Text
  deriving DecidableEq

def SecurityEvent.reported (e : SecurityEvent) : Reported where
  check_class := e.check_class
  title := e.title
  severity := severityNum e.severity
  url := e.endpoint_url
  cwe := e.cwe
  skill_ref := e.skill_ref
  assessment_id := e.assessment_id
  status := e.status

/-- A natural number in digits. -/
def readNat (t : Text) : Option ℕ :=
  if t ≠ [] ∧ t.all Char.isDigit then some (Nat.ofDigitChars 10 t 0) else none

/-- A field of a document. -/
def at? (j : Json) (key : String) : Option Json :=
  match j with
  | .obj d => Dict.get? d key.toList
  | _ => none

def text? : Json → Option Text
  | .str t => some t
  | _ => none

/-- Read an ECS line. -/
def readEcs (line : Text) : Option Reported := do
  let j ← JsonText.loads line
  let vulnerability ← at? j "vulnerability"
  let category ← at? vulnerability "category"
  let check_class ← match category with
    | .arr [.str t] => some t
    | _ => none
  let title ← (at? vulnerability "description").bind text?
  let severity ← match (at? j "event").bind (at? · "severity") with
    | some (.num rendering _) => readNat rendering
    | _ => none
  let url ← ((at? j "url").bind (at? · "full")).bind text?
  let cwe ← (at? vulnerability "classification").bind text?
  let sentrik ← at? j "sentrik"
  let skill_ref ← (at? sentrik "skill_ref").bind text?
  let assessment_id ← (at? sentrik "assessment_id").bind text?
  let status ← (at? sentrik "status").bind text?
  return { check_class, title, severity, url, cwe, skill_ref, assessment_id, status }

/-- The header fields, and what follows them. -/
def header : ℕ → Text → Option (List Text × Text)
  | 0, x => some ([], x)
  | n + 1, x =>
    match Escaping.upTo id '|' x with
    | (field, some rest) => (header n rest).map fun r ↦ (field :: r.1, r.2)
    | (_, none) => none

/-- What an escaped character of a value stands for. -/
def unescape (c : Char) : Char := if c = 'n' then '\n' else if c = 'r' then '\r' else c

/-- A value and the key behind it. -/
def splitKey (segment : Text) : Text × Text :=
  ((Text.rpartition ' ' segment).1.getD [], (Text.rpartition ' ' segment).2)

/-- The pairs, from the value of a key on. -/
def pairsFrom (key x : Text) : List (Text × Text) :=
  match _h : Escaping.upTo unescape '=' x with
  | (segment, none) => [(key, segment)]
  | (segment, some rest) => (key, (splitKey segment).1) :: pairsFrom (splitKey segment).2 rest
termination_by x.length
decreasing_by exact Escaping.length_rest_lt (congrArg Prod.snd _h)

/-- The pairs of an extension. -/
def pairs (x : Text) : List (Text × Text) :=
  match Escaping.upTo unescape '=' x with
  | (_, none) => []
  | (key, some rest) => pairsFrom key rest

/-- Read a CEF line. -/
def readCef (line : Text) : Option Reported :=
  match header 7 line with
  | some ([_, _, _, _, check_class, title, severity], x) => do
    let severity ← readNat severity
    let url ← (pairs x).lookup "request".toList
    let cwe ← (pairs x).lookup "cs2".toList
    let skill_ref ← (pairs x).lookup "cs3".toList
    let assessment_id ← (pairs x).lookup "cs1".toList
    let status ← (pairs x).lookup "outcome".toList
    return { check_class, title, severity, url, cwe, skill_ref, assessment_id, status }
  | _ => none

/-- Read a line of a format. -/
def readLine (fmt line : Text) : Option Reported :=
  if fmt = "cef".toList then readCef line else readEcs line

end Siem
