import Mathlib.Algebra.Order.Ring.Unbundled.Rat
import Mathlib.Algebra.Order.Group.Unbundled.Abs
import Sentrik.Library.Url
import Sentrik.Checks.Client

/-!
# What checks and validators look for

The predicates on responses that a check and the validator of its findings share, or state twice: the
database error signatures, the renderable context of a reflection, the standalone number, the leak
markers; and the data they share: sessions and flows.
-/

namespace Sentrik

/-! ### Sessions -/

/-- A resolved authenticated session of a test account. -/
structure AuthSession where
  role_name : Text
  headers : Overrides := []
  owns_object_ids : List Json := []
  expired : Bool := false

section

variable [u : UnicodeTables] [w : WordTables] [lib : StandardLibrary]

/-! ### Injection -/

def DB_ERROR_SIGNATURES : List Text := [
  "you have an error in your sql syntax".toList,
  "warning: mysqli?".toList,
  "unclosed quotation mark after the character string".toList,
  "quoted string not properly terminated".toList,
  "pg_query\\(\\)".toList,
  "psql:.*ERROR".toList,
  "sqlite3?\\.(OperationalError|Warning)".toList,
  "sqlite_error".toList,
  "near \\\".*\\\": syntax error".toList,
  "ORA-\\d\x7b5\x7d".toList,
  "microsoft odbc .* driver".toList,
  "sqlstate\\[".toList,
  "syntax error at or near".toList ]

/-- Patterns as alternatives. -/
def alternatives (patterns : List Text) : Text := List.intercalate "|".toList patterns

/-- `_ERROR_RE.search(text)` -/
def errorSearch (text : Text) : Bool := lib.search (alternatives DB_ERROR_SIGNATURES) text

/-- The lengths differ by more than a fraction of the longer one. -/
def lenDiffers (a b : Text) (threshold : ℚ) : Bool :=
  let la : ℚ := a.length
  let lb : ℚ := b.length
  if max la lb = 0 then false else threshold < |la - lb| / max la lb

/-- The statuses that trigger a finding. -/
def triggerStatus (value : Json) : Except Raised (List ℤ) := do (← value.iter).mapM lib.int

/-- The compiled signatures, if there are any. -/
def compileSignatures (sigs : Json) : Except Raised (Option Text) :=
  if sigs.truthy then do
    let pattern := alternatives (← sigs.texts)
    lib.compile pattern
    return some pattern
  else .ok none

/-! ### Reflection -/

/-- A payload reflected in this response could execute in a browser. -/
def renderable_html_context (status_code : ℕ) (content_type : Text) : Bool :=
  if 400 ≤ status_code then false
  else
    let ctype := u.lower content_type
    ctype = [] || Text.hasInfix "html".toList ctype

/-- `t.replace("<", "&lt;").replace(">", "&gt;")` -/
def escapeAngles (t : Text) : Text :=
  (t.flatMap fun c ↦ if c = '<' then "&lt;".toList else [c]).flatMap fun c ↦
    if c = '>' then "&gt;".toList else [c]

/-- What has to be in a response for the marker of a recipe to be reflected, and what must not. -/
def rawMarker (marker payload : Json) : Json :=
  if marker.truthy then .str ("<szx".toList ++ marker.toText ++ ['>']) else payload

def escapedMarker (marker : Json) : Text :=
  if marker.truthy then "&lt;szx".toList ++ marker.toText ++ "&gt;".toList else []

/-- The raw form is in the text and the escaped form, if there is one, is not. -/
def reflectedIn (raw : Json) (escaped text : Text) : Except Raised Bool :=
  if raw.truthy then do
    return (← raw.isIn text) && (escaped = [] || !Text.hasInfix escaped text)
  else .ok false

/-! ### Redirects -/

/-- `urlsplit(value).hostname` -/
def hostnameOf (value : Json) : Except Raised (Option Text) :=
  match value with
  | .str t =>
    match Url.urlsplit t with
    | .ok parts => .ok parts.hostname
    | .error _ => .error .ValueError
  | .arr _ | .obj _ => .error .TypeError
  | value => if value.truthy then .error .AttributeError else .ok none

/-- A location is given, and its host is that of the payload. -/
def pointsTo (location : Text) (payload : Json) : Except Raised Bool :=
  if location = [] then .ok false
  else do return (← hostnameOf (.str location)) = (← hostnameOf payload)

/-! ### Numbers -/

/-- Whether the value occurs at some place of the rest of a body as a number of its own; `before` is the
character in front of the rest. -/
def echoesFrom (value : Text) : Option Char → Text → Bool
  | before, [] => standsAt before []
  | before, c :: rest => standsAt before (c :: rest) || echoesFrom value (some c) rest
where
  /-- The value stands at the head of the rest, with no character of a number next to it. -/
  standsAt (before : Option Char) (rest : Text) : Bool :=
    value.isPrefixOf rest && !before.any (fun c ↦ isWord c || c == '.' || c == '-') &&
      !(rest.drop value.length).head?.any fun c ↦ isWord c || c == '.'

/-- The value appears in the body as a standalone number. -/
def echoesNumber (body value : Text) : Bool := echoesFrom value none body

/-! ### Prompt injection -/

/-- Markers of a leaked system prompt or secret. -/
def _LEAK_MARKERS : List Text := [
  "[SYSTEM PROMPT]".toList, "system prompt:".toList, "secret=".toList, "flag\x7b".toList,
  "you are ".toList ]

def _leak_markers (text : Text) : List Text :=
  _LEAK_MARKERS.filter fun m ↦ Text.hasInfix (u.lower m) (u.lower text)

/-- The markers of a response that another one does not have. -/
def leakedMarkers (injection baseline : Text) : List Text :=
  (_leak_markers injection).filter fun m ↦ !(_leak_markers baseline).contains m

end

/-! ### Flows -/

structure FlowStep where
  method : Text
  /-- May have places for the variables read so far. -/
  path : Text
  json_body : Dict := []
  params : Overrides := []
  /-- The variables to read, each with its key in the response. -/
  extract : List (Text × Text) := []
  expect_status : List ℕ := [200, 201]

structure FlowDefinition where
  name : Text
  steps : List FlowStep
  invariant_var : Text
  /-- The invariant is violated when the observed value exceeds this. -/
  invariant_max : ℕ

def COUPON_REPLAY : FlowDefinition where
  name := "coupon_replay".toList
  steps := [
    { method := "POST".toList
      path := "/api/cart".toList
      extract := [("cart_id".toList, "cart_id".toList)] },
    { method := "POST".toList
      path := "/api/cart/{cart_id}/coupon".toList
      json_body := [("code".toList, .text "SAVE10")] },
    { method := "POST".toList
      path := "/api/cart/{cart_id}/coupon".toList
      json_body := [("code".toList, .text "SAVE10")] },
    { method := "GET".toList
      path := "/api/cart/{cart_id}".toList
      extract := [("discount_pct".toList, "discount_pct".toList)]
      expect_status := [200] } ]
  invariant_var := "discount_pct".toList
  invariant_max := 10

def FLOWS : List FlowDefinition := [COUPON_REPLAY]

end Sentrik
