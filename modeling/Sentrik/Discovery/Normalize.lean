import Sentrik.Checks.Client
import Sentrik.Library.JsonText
import Sentrik.Library.Sha1

/-!
# Fingerprints and surface signatures

What an incremental run compares. The **fingerprint** of an endpoint is a digest of its location; its
**surface signature** is a digest of a canonical document with the fingerprint and what the code keeps
of the rest: the labels of the named parameters, the authentication flag, the roles, the keys of the
body schema, the version (`Surface`).

A row is read from columns of decoded documents, so a parameter's name or location may be of any type,
and one that is true but no text raises.
-/

namespace Sentrik

/-- What the digit class of a pattern reads of the Unicode tables. -/
class DigitTables where
  isDecimal : Char → Bool

/-- The digit table restricted to ASCII. -/
@[reducible] def asciiDigits : DigitTables where
  isDecimal := Text.isDigit

namespace Discovery

/-! ### Rows -/

/-- A row of the inventory, in the columns a signature reads. -/
structure EndpointRow where
  method : Text
  url : Text
  path_template : Text := []
  parameters : List Dict := []
  request_body_schema : Dict := []
  auth_required : Bool := false
  roles : List Text := []
  api_version : Text := []

/-! ### Locations -/

section

variable [d : DigitTables]

/-- `_ID_SEGMENT`: decimal digits, eight or more hexadecimal ones, or sixteen or more of those and
hyphens. -/
def isIdSegment (seg : Text) : Bool :=
  (!seg.isEmpty && seg.all d.isDecimal) ||
    (8 ≤ seg.length && seg.all fun c ↦ Text.isDigit c || ('a' ≤ c && c ≤ 'f') || ('A' ≤ c && c ≤ 'F')) ||
    (16 ≤ seg.length && seg.all fun c ↦ Text.isDigit c || ('a' ≤ c && c ≤ 'f') || c == '-')

/-- Replace id-like segments with a placeholder. -/
def templatize_path (path : Text) : Text :=
  let out := Json.joinWith ['/'] ((Text.split '/' path).map fun seg ↦
    if isIdSegment seg then "\x7bid\x7d".toList else seg)
  if out = [] then ['/'] else out

variable [u : UnicodeTables]

/-- The location of an endpoint, before it is hashed. -/
def fingerprintKey (method url path_template : Text) : Except Raised Text := do
  let parts ← (Url.urlsplit url).mapError fun _ ↦ .ValueError
  let host := u.lower (parts.hostname.getD [])
  let port ← parts.port.mapError fun _ ↦ .ValueError
  let port := (port.filter (· ≠ 0)).getD (if parts.scheme = "https".toList then 443 else 80)
  let tmpl := if path_template ≠ [] then path_template
    else templatize_path (if parts.path = [] then ['/'] else parts.path)
  return u.upper method ++ ' ' :: host ++ ':' :: (toString port).toList ++ tmpl

def endpoint_fingerprint (method url path_template : Text) : Except Raised Text :=
  (fingerprintKey method url path_template).map Sha1.hexdigest

end

/-! ### Surfaces -/

/-- The canonical document, before it is printed. -/
structure Surface where
  fp : Text
  params : List Text
  auth : Bool
  roles : List Text
  body : List Text
  api_version : Text
  deriving DecidableEq, Repr

/-- The document, its keys in sorted order. -/
def Surface.payload (s : Surface) : Json := .obj [
  ("api_version".toList, .str s.api_version),
  ("auth".toList, .bool s.auth),
  ("body".toList, .arr (s.body.map .str)),
  ("fp".toList, .str s.fp),
  ("params".toList, .arr (s.params.map .str)),
  ("roles".toList, .arr (s.roles.map .str))]

def Surface.canonical (s : Surface) : Text := JsonText.dumps s.payload

/-- `sorted` -/
def sorted (l : List Text) : List Text := l.insertionSort (· ≤ ·)

section

variable [u : UnicodeTables]

/-- `(value or default).lower()` -/
def lowered (value : Option Json) (default : Text) : Except Raised Text :=
  match Json.orNone value with
  | none => .ok (u.lower default)
  | some (.str t) => .ok (u.lower t)
  | some _ => .error .AttributeError

/-- The parameter has a name. -/
def named (p : Dict) : Bool := (Json.orNone (p.get? "name".toList)).isSome

/-- What the signature keeps of a parameter: its name and its location, in lower case. -/
def label (p : Dict) : Except Raised Text := do
  let name ← lowered (p.get? "name".toList) []
  let location ← lowered (p.get? "in".toList) "query".toList
  return name ++ ':' :: location

variable [DigitTables]

/-- The surface of an endpoint. -/
def surface (method url path_template : Text) (parameters : List Dict) (auth_required : Bool)
    (roles : List Text) (request_body_schema : Dict) (api_version : Text) : Except Raised Surface := do
  let params ← (parameters.filter named).mapM label
  let fp ← endpoint_fingerprint method url path_template
  return {
    fp
    params := sorted params
    auth := auth_required
    roles := sorted (roles.filter (· ≠ []))
    body := sorted (request_body_schema.map Prod.fst)
    api_version }

/-- A change-sensitive signature of an endpoint's testable surface. -/
def endpoint_surface_signature (method url path_template : Text) (parameters : List Dict)
    (auth_required : Bool) (roles : List Text) (request_body_schema : Dict) (api_version : Text) :
    Except Raised Text := do
  let s ← surface method url path_template parameters auth_required roles request_body_schema
    api_version
  return Sha1.hexdigest s.canonical

namespace EndpointRow

def fingerprint (e : EndpointRow) : Except Raised Text :=
  endpoint_fingerprint e.method e.url e.path_template

def surface (e : EndpointRow) : Except Raised Surface :=
  Discovery.surface e.method e.url e.path_template e.parameters e.auth_required e.roles
    e.request_body_schema e.api_version

/-- The change-sensitive surface signature of a persisted row. -/
def _endpoint_signature (e : EndpointRow) : Except Raised Text :=
  endpoint_surface_signature e.method e.url e.path_template e.parameters e.auth_required e.roles
    e.request_body_schema e.api_version

end EndpointRow

/-- What planning of an incremental run keeps of the endpoints: those whose signature no endpoint of the
run before has. -/
def planEndpoints (prev_rows endpoints : List EndpointRow) : Except Raised (List EndpointRow) := do
  let prev_signatures ← prev_rows.mapM EndpointRow._endpoint_signature
  let signatures ← endpoints.mapM EndpointRow._endpoint_signature
  return ((endpoints.zip signatures).filter fun p ↦ !prev_signatures.contains p.2).map Prod.fst

end

end Discovery

end Sentrik
