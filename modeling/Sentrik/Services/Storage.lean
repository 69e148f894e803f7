import Sentrik.Core.Auth
import Sentrik.Library.Base64
import Sentrik.Library.JsonReader
import Sentrik.Library.Keyed
import Sentrik.Library.PosixPath
import Sentrik.Services.PdfReport

/-!
# The object storage

Blobs are stored under keys, in one of three backends: inline in the reference that `put` returns, in
files below a directory, or as objects of a bucket. The file system and the object store are ideal ones:
what is written is there until it is overwritten. Content types are left out.

`export_report` renders a report in the format that the query names, and stores it under a key with the id
of the assessment and that format.
-/

namespace Sentrik

namespace Storage

inductive StorageError
  | valueError (message : String)
  | osError (name : String)
  deriving DecidableEq, Repr

/-! ### References -/

structure ObjectRef where
  backend : Text
  key : Option Text
  url : Option Text
  inline : Option Text
  inline_encoding : Option Text
  deriving DecidableEq, Repr

def optional (t : Option Text) : Json :=
  match t with
  | some t => .str t
  | none => .null

/-- The reference as the dictionary that is persisted. -/
def ObjectRef.toJson (ref : ObjectRef) : Json := .obj [
  ("backend".toList, .str ref.backend), ("key".toList, optional ref.key),
  ("url".toList, optional ref.url), ("inline".toList, optional ref.inline),
  ("inline_encoding".toList, optional ref.inline_encoding)]

/-- `ref.get(name)` of a field that is a text or nothing. -/
def optionalField (d : Dict) (name : String) : Option Text :=
  match d.get? name.toList with
  | some (.str t) => some t
  | _ => none

/-- The reference that a dictionary is. -/
def ObjectRef.ofJson : Json → Option ObjectRef
  | .obj d => some ⟨(optionalField d "backend").getD [], optionalField d "key", optionalField d "url",
      optionalField d "inline", optionalField d "inline_encoding"⟩
  | _ => none

/-- The reference after it was written as JSON and read again. -/
def ObjectRef.reloaded (ref : ObjectRef) : Option ObjectRef :=
  (JsonText.loads (JsonText.print ref.toJson)).bind ObjectRef.ofJson

/-! ### Keys -/

section

variable [u : UnicodeTables]

/-- `key.replace("\\", "/")` -/
def slashes (key : Text) : Text := key.map fun c ↦ if c = '\\' then '/' else c

/-- The key with one kind of separator, stripped. -/
def normalize (key : Text) : Text := Text.strip (slashes key)

/-- `_sanitize_key` -/
def _sanitize_key (key : Text) : Except StorageError PosixPath :=
  if key = [] then .error (.valueError "storage key must be a non-empty string")
  else if normalize key = [] then .error (.valueError "storage key must not be blank")
  else if Text.startswith (normalize key) ['/'] then
    .error (.valueError "storage key must not be absolute (leading '/')")
  else if (normalize key)[1]? = some ':' then
    .error (.valueError "storage key must not contain a drive letter")
  else if PosixPath.segments (normalize key) = [] then
    .error (.valueError "storage key resolves to an empty path")
  else if (PosixPath.segments (normalize key)).any (· = "..".toList) then
    .error (.valueError "storage key must not contain '..' path traversal")
  else .ok (PosixPath.ofArgs (PosixPath.segments (normalize key)))

end

/-! ### Ideal stores -/

/-- What is at a location of the file system. -/
inductive Node
  | dir
  | file (content : Bytes)
  deriving DecidableEq, Repr

/-- Everything at its location. -/
abbrev FileSystem := List (List Text × Node)

/-- `os.mkdir`, where a directory may exist. -/
def mkdir (fs : FileSystem) (location : List Text) : Except StorageError FileSystem :=
  match fs.lookup location with
  | none => .ok (Keyed.set Prod.fst fs (location, .dir))
  | some .dir => .ok fs
  | some (.file _) => .error (.osError "NotADirectoryError")

/-- `mkdir(parents=True, exist_ok=True)` -/
def makedirs (fs : FileSystem) (location : List Text) : Except StorageError FileSystem :=
  location.inits.foldlM mkdir fs

/-- `write_bytes` -/
def write_bytes (fs : FileSystem) (location : List Text) (raw : Bytes) :
    Except StorageError FileSystem :=
  match fs.lookup location with
  | some .dir => .error (.osError "IsADirectoryError")
  | _ => .ok (Keyed.set Prod.fst fs (location, .file raw))

/-- `read_bytes` -/
def read_bytes (fs : FileSystem) (location : List Text) : Except StorageError Bytes :=
  match fs.lookup location with
  | some (.file content) => .ok content
  | some .dir => .error (.osError "IsADirectoryError")
  | none => .error (.osError "FileNotFoundError")

/-- The file system, and the objects of the bucket. -/
structure Store where
  files : FileSystem := []
  objects : List (Text × Bytes) := []

/-! ### Locators -/

def upperHex (n : ℕ) : Char := if n < 10 then Char.ofNat (48 + n) else Char.ofNat (55 + n)

/-- The bytes that stand for themselves in a URL, and the slash. -/
def isUnreserved (b : UInt8) : Bool :=
  (48 ≤ b && b ≤ 57) || (65 ≤ b && b ≤ 90) || (97 ≤ b && b ≤ 122) ||
    b == 95 || b == 46 || b == 45 || b == 126 || b == 47

/-- `urllib.parse.quote` -/
def quote (t : Text) : Text := t.utf8.flatMap fun b ↦
  if isUnreserved b then [Char.ofNat b.toNat]
  else ['%', upperHex (b.toNat / 16), upperHex (b.toNat % 16)]

/-- `Path.as_uri` -/
def as_uri (location : List Text) : Text :=
  "file://".toList ++ quote ('/' :: List.intercalate ['/'] location)

/-! ### Backends -/

/-- `DbBackend`, `LocalBackend` with its root and the working directory, or `S3Backend` with its bucket. -/
inductive Backend
  | db
  | localDir (root : PosixPath) (cwd : List Text)
  | s3 (bucket : Text)

section

variable [UnicodeTables]

/-- `DbBackend.put` -/
def dbPut (raw : Bytes) : ObjectRef :=
  match raw.utf8? with
  | some text => ⟨"db".toList, none, none, some text, some "utf-8".toList⟩
  | none => ⟨"db".toList, none, none, some (Base64.encode raw), some "base64".toList⟩

/-- `DbBackend.get` -/
def dbGet (ref : ObjectRef) : Except StorageError Bytes :=
  match ref.inline with
  | none => .ok []
  | some inline =>
    let encoding := if ref.inline_encoding.getD [] = [] then "utf-8".toList
      else ref.inline_encoding.getD []
    if encoding = "base64".toList then
      match Base64.decode inline with
      | some raw => .ok raw
      | none => .error (.valueError "Incorrect padding")
    else if encoding = "utf-8".toList then .ok inline.utf8
    else .error (.valueError ("unknown inline_encoding: " ++ Text.repr encoding))

/-- `LocalBackend._resolve` -/
def _resolve (root : PosixPath) (key : Text) : Except StorageError PosixPath := do
  let safe ← _sanitize_key key
  return root.joinpath safe.parts

/-- `LocalBackend.put` -/
def localPut (root : PosixPath) (cwd : List Text) (store : Store) (key : Text) (raw : Bytes) :
    Except StorageError (ObjectRef × Store) := do
  let path ← _resolve root key
  let made ← makedirs store.files (path.parent.resolve cwd)
  let files ← write_bytes made (path.resolve cwd) raw
  let safe ← _sanitize_key key
  return (⟨"local".toList, some safe.str, some (as_uri (path.resolve cwd)), none, none⟩,
    { store with files })

/-- `LocalBackend.get` -/
def localGet (root : PosixPath) (cwd : List Text) (store : Store) (ref : ObjectRef) :
    Except StorageError Bytes :=
  match ref.key with
  | none | some [] => .error (.valueError "local ref is missing 'key'")
  | some key => do
    let path ← _resolve root key
    read_bytes store.files (path.resolve cwd)

/-- `S3Backend.put` -/
def s3Put (bucket : Text) (store : Store) (key : Text) (raw : Bytes) :
    Except StorageError (ObjectRef × Store) := do
  let safe ← _sanitize_key key
  return (⟨"s3".toList, some safe.str, some ("s3://".toList ++ bucket ++ ['/'] ++ safe.str), none, none⟩,
    { store with objects := Keyed.set Prod.fst store.objects (safe.str, raw) })

/-- `S3Backend.get` -/
def s3Get (store : Store) (ref : ObjectRef) : Except StorageError Bytes :=
  match ref.key with
  | none | some [] => .error (.valueError "s3 ref is missing 'key'")
  | some key => do
    let safe ← _sanitize_key key
    match store.objects.lookup safe.str with
    | some body => .ok body
    | none => .error (.osError "NoSuchKey")

/-- `StorageBackend.put` -/
def Backend.put (b : Backend) (store : Store) (key : Text) (raw : Bytes) :
    Except StorageError (ObjectRef × Store) :=
  match b with
  | .db => .ok (dbPut raw, store)
  | .localDir root cwd => localPut root cwd store key raw
  | .s3 bucket => s3Put bucket store key raw

/-- `StorageBackend.get` -/
def Backend.get (b : Backend) (store : Store) (ref : ObjectRef) : Except StorageError Bytes :=
  match b with
  | .db => dbGet ref
  | .localDir root cwd => localGet root cwd store ref
  | .s3 _ => s3Get store ref

end

/-! ### The report export -/

/-- The report of an assessment, as Markdown and as JSON. -/
structure ReportPayload where
  markdown : Text
  json : Text

inductive ExportError
  | http (e : HTTPException)
  | storage (e : StorageError)

/-- The report in the format that the query names. -/
def reportData [UnicodeTables] (payload : ReportPayload) (fmt : Text) : Bytes :=
  if fmt = "markdown".toList then payload.markdown.utf8
  else if fmt = "pdf".toList then PdfReport.text_to_pdf payload.markdown
  else payload.json.utf8

/-- The key of a report. -/
def reportKey (assessment_id fmt : Text) : Text :=
  "reports/".toList ++ assessment_id ++ "/report.".toList ++ fmt

/-- `POST /v1/assessments/{id}/report/export`; the assessment of that id in the caller's organization, if
there is one, with its report. -/
def export_report [UnicodeTables] (storage : Backend) (store : Store) (principal : Principal)
    (assessment : Option ReportPayload) (assessment_id fmt : Text) :
    Except ExportError (ObjectRef × Store) :=
  match principal.require_role .OPERATOR with
  | .error e => .error (.http e)
  | .ok _ =>
    match assessment with
    | none => .error (.http { status_code := 404, detail := "assessment not found" })
    | some payload =>
      match storage.put store (reportKey assessment_id fmt) (reportData payload fmt) with
      | .error e => .error (.storage e)
      | .ok stored => .ok stored

end Storage

end Sentrik
