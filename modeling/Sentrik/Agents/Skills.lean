import Sentrik.Checks.Client
import Sentrik.Library.JsonText
import Sentrik.Library.Machine
import Sentrik.Library.Yaml

/-!
# Registering skills

A skill is registered from a document with a YAML head. A version is registered once: a second registration is
a no-op where the content is the same, by a hash, and a conflict where it is not.

The hash of what is submitted is taken of the loaded document, the hash of what is stored of what came back
from a JSON column, and what runs is a projection of the latter that carries eight digits of the hash.

`versions_immutable` is about runs whose submissions are written alike in both places, and are told from what
is stored by those eight digits: there the three notions of sameness are one.
-/

namespace Sentrik

/-- What registration uses of the libraries: the loader of YAML, which can raise, the compiler of patterns,
with the message of a pattern it refuses, the hash, and the names of the built-in checks. -/
class SkillLibrary where
  safe_load : Text → Option Yaml
  compile : Yaml → Except Raised (Option Text)
  sha256 : Text → Text
  builtin : Text → Bool

namespace Skills

/-! ### The document -/

section

variable [u : UnicodeTables]

/-- The places after a line break in leading white space, the last one first. -/
def afterBreaks : Text → List Text
  | [] => []
  | c :: rest => if u.isSpace c then afterBreaks rest ++ (if c = '\n' then [rest] else []) else []

/-- The first closing line of a head: what is before it, and what is after it. -/
def closing : Text → Option (Text × Text)
  | [] => none
  | c :: rest =>
    match if "\n---".toList.isPrefixOf (c :: rest) then (afterBreaks (rest.drop 3)).head? else none with
    | some body => some ([], body)
    | none => (closing rest).map fun p ↦ (c :: p.1, p.2)

/-- The head and the body; without a head, all is body. -/
def _split_frontmatter (text : Text) : Text × Text :=
  let start := text.dropWhile u.isSpace
  let found :=
    if "---".toList.isPrefixOf start then (afterBreaks (start.drop 3)).findSome? closing else none
  found.getD ([], text)

/-! ### Validation -/

def DETECTOR_TYPES : List String :=
  ["error_signature", "reflection", "status_code", "header_missing", "header_present", "header_reflects"]

/-- `_DETECTOR_REQUIRED` -/
def required : Text → List String := fun dtype ↦
  if dtype = "error_signature".toList then ["signatures"]
  else if dtype = "header_missing".toList ∨ dtype = "header_present".toList then ["headers"]
  else if dtype = "header_reflects".toList then ["request_header", "response_header"]
  else []

/-- The type a detector has, if it is one of the known ones; a list or a mapping has no hash. -/
def detectorType (det : List (YamlKey × Yaml)) : Except Raised (Option Text) :=
  match Yaml.get det "type" .null with
  | .str t => .ok (if t ∈ DETECTOR_TYPES.map String.toList then some t else none)
  | .seq _ | .map _ => .error .TypeError
  | _ => .ok none

def manifest_is_executable (manifest : List (YamlKey × Yaml)) : Except Raised Bool :=
  match Yaml.get manifest "detector" .null with
  | .map det => (detectorType det).map Option.isSome
  | _ => .ok false

/-- The outcome of a validation. -/
structure Validation where
  ok : Bool
  errors : List Text
  detector_type : Yaml

def Validation.document (v : Validation) : Yaml := .dict [
  ("ok".toList, .bool v.ok), ("errors".toList, .seq (v.errors.map .str)),
  ("detector_type".toList, v.detector_type)]

/-- The items a loop over a value goes through. -/
def items : Yaml → Except Raised (List Yaml)
  | .seq items => .ok items
  | .str t => .ok (t.map fun c ↦ .str [c])
  | .map fields => .ok (fields.map fun e ↦ Yaml.ofKey e.1)
  | _ => .error .TypeError

/-- The value is one of these texts. -/
def isText (value : Yaml) (texts : List String) : Bool :=
  match value with
  | .str t => t ∈ texts.map String.toList
  | _ => false

variable [lib : SkillLibrary]

/-- The messages about the signatures that do not compile. -/
def signatureErrors : List Yaml → Except Raised (List Text)
  | [] => .ok []
  | sig :: rest => do
    let refused ← lib.compile sig
    let errors ← signatureErrors rest
    return (refused.map fun exc ↦
      "invalid signature regex ".toList ++ sig.repr ++ ": ".toList ++ exc).toList ++ errors

/-- Validate a declarative manifest with this detector. -/
def validate_declarative (spec det : List (YamlKey × Yaml)) : Except Raised Validation := do
  match ← detectorType det with
  | none =>
    return {
      ok := false
      errors := ["detector.type must be one of ['error_signature', 'header_missing', 'header_present', 'header_reflects', 'reflection', 'status_code']".toList]
      detector_type := Yaml.get det "type" .null }
  | some dtype =>
    let missing := (required dtype).filter fun req ↦ !(Yaml.get det req .null).truthy
    let errors := missing.map fun req ↦
      "detector.".toList ++ req.toList ++ " is required for type '".toList ++ dtype ++ "'".toList
    let name := Yaml.get spec "name" .null
    let errors := errors ++
      if !name.truthy || isText name ["unnamed-skill"] then ["a named 'name' is required".toList] else []
    let errors := errors ++
      if !(Yaml.get spec "version" .null).truthy then ["a 'version' is required".toList] else []
    let errors := errors ++
      if !(Yaml.get spec "check_class" .null).truthy then ["check_class is required".toList] else []
    let errors := errors ++
      if !isText (Yaml.get spec "intensity" .null) ["passive", "safe_active", "invasive"] then
        ["intensity must be passive|safe_active|invasive".toList] else []
    let signatures ←
      if dtype = "error_signature".toList then do
        signatureErrors (← items (Yaml.get det "signatures" (.seq [])))
      else pure []
    let errors := errors ++ signatures
    return { ok := errors.isEmpty, errors, detector_type := .str dtype }

/-! ### The manifest -/

structure SkillManifest where
  name : Text
  version : Text
  check_class : Text
  intensity : Text
  allowed_tools : List Text
  policy : List (YamlKey × Yaml)
  body : Text
  needs_code : Bool
  spec : List (YamlKey × Yaml)
  validation : Option Validation
  tested : Bool

/-- The head as a mapping; what does not load, or is no mapping, is empty. -/
def metaOf (fm : Text) : List (YamlKey × Yaml) :=
  match lib.safe_load fm with
  | some (.map fields) => fields
  | _ => []

/-- The validation of a manifest with a detector. -/
def validationOf (meta_ : List (YamlKey × Yaml)) : Except Raised (Option Validation) :=
  match Yaml.get meta_ "detector" .null with
  | .map det => (validate_declarative meta_ det).map some
  | _ => .ok none

/-- Parse a skill document. -/
def parse_skill_md (text : Text) : Except Raised SkillManifest := do
  let (fm, body) := _split_frontmatter text
  let meta_ := metaOf fm
  let name := (Yaml.get meta_ "name" (.str "unnamed-skill".toList)).toText
  let has_impl := lib.builtin name
  let executable_declarative ← manifest_is_executable meta_
  let validation ← validationOf meta_
  let ok := (validation.map (·.ok)).getD false
  let executable := has_impl || (executable_declarative && ok)
  return {
    name
    version := (Yaml.get meta_ "version" (.str "1.0.0".toList)).toText
    check_class := (Yaml.get meta_ "check_class" (.str [])).toText
    intensity := (Yaml.get meta_ "intensity" (.str "passive".toList)).toText
    allowed_tools := match Yaml.get meta_ "allowed_tools" (.seq []) with
      | .seq tools => tools.map Yaml.toText
      | _ => []
    policy := match Yaml.get meta_ "policy" (.map []) with
      | .map fields => fields
      | _ => []
    body := body.strip
    needs_code := !executable
    spec := meta_
    validation
    tested := (validation.map (·.ok)).getD has_impl }

omit u lib in
/-- The manifest as it is stored. -/
def SkillManifest.payload (m : SkillManifest) : Except Raised (List (Text × Yaml)) := do
  let declarative ← manifest_is_executable m.spec
  return [
    ("intensity".toList, .str m.intensity),
    ("allowed_tools".toList, .seq (m.allowed_tools.map .str)),
    ("policy".toList, .map m.policy),
    ("needs_code".toList, .bool m.needs_code),
    ("executable".toList, .bool !m.needs_code),
    ("declarative".toList, .bool declarative),
    ("detector".toList, Yaml.get m.spec "detector" .null),
    ("cwe".toList, Yaml.get m.spec "cwe" (.str [])),
    ("severity".toList, Yaml.get m.spec "severity" (.str "medium".toList)),
    ("confidence".toList, Yaml.get m.spec "confidence" (.str "medium".toList)),
    ("title".toList, Yaml.get m.spec "title" (.str m.name)),
    ("description".toList, Yaml.get m.spec "description" (.str [])),
    ("remediation".toList, Yaml.get m.spec "remediation" (.str [])),
    ("validation".toList, (m.validation.map Validation.document).getD (.map [])),
    ("tested".toList, .bool m.tested),
    ("body_preview".toList, .str (m.body.take 500))]

/-! ### Hashes -/

omit u lib in
/-- `_MUTABLE_MANIFEST_KEYS` -/
def _MUTABLE_MANIFEST_KEYS : List Text :=
  ["validation".toList, "tested".toList, "body_preview".toList]

omit u lib in
/-- What is hashed of a manifest. -/
def stable (payload : List (Text × Yaml)) : List (Text × Yaml) :=
  payload.filter fun e ↦ e.1 ∉ _MUTABLE_MANIFEST_KEYS

omit u lib in
mutual

/-- `json.dumps(value)`, with blanks after the separators -/
def dumps : Json → Text
  | .null => "null".toList
  | .bool b => JsonText.dumpsBool b
  | .num rendering _ => rendering
  | .str t => JsonText.dumpsText t
  | .arr items => '[' :: Json.joinWith ", ".toList (dumpsItems items) ++ [']']
  | .obj fields => '\x7b' :: Json.joinWith ", ".toList (dumpsFields fields) ++ ['\x7d']

def dumpsItems : List Json → List Text
  | [] => []
  | item :: rest => dumps item :: dumpsItems rest

def dumpsFields : List (Text × Json) → List Text
  | [] => []
  | (key, value) :: rest => (JsonText.dumpsText key ++ ": ".toList ++ dumps value) :: dumpsFields rest

end

omit u in
/-- The content hash of a manifest; the encoder can raise. -/
def manifest_hash (payload : List (Text × Yaml)) : Except Raised Text :=
  match (Yaml.dict (stable payload)).canonical with
  | some document => .ok (lib.sha256 (dumps document))
  | none => .error .TypeError

omit u in
/-- The provenance reference of a skill. -/
def skill_ref (name version : Text) (payload : List (Text × Yaml)) : Except Raised Text := do
  let hash ← manifest_hash payload
  return name ++ "@".toList ++ version ++ "#".toList ++ hash.take 8

/-! ### Rows -/

structure AgentSkill where
  id : ℕ
  org_id : Option ℕ
  name : Text
  version : Text
  check_class : Text
  manifest : List (Text × Yaml)
  enabled : Bool
  provenance : Text

omit u lib in
/-- `m.get(key, default)` -/
def field (m : List (Text × Yaml)) (key : String) (default : Yaml) : Yaml :=
  (m.lookup key.toList).getD default

omit u lib in
/-- `(m.get("policy") or {}).get(key, default)`; a stored policy is a mapping. -/
def policyField (m : List (Text × Yaml)) (key : String) (default : Yaml) : Yaml :=
  match field m "policy" .null with
  | .map policy => Yaml.get policy key default
  | _ => default

omit u lib in
/-- The entries of a runnable spec with this reference. -/
def specWith (name version check_class reference : Text) (m : List (Text × Yaml)) :
    List (Text × Yaml) := [
  ("name".toList, .str name),
  ("version".toList, .str version),
  ("check_class".toList, .str check_class),
  ("skill_ref".toList, .str reference),
  ("intensity".toList, field m "intensity" (.str "passive".toList)),
  ("cwe".toList, field m "cwe" (.str [])),
  ("severity".toList, field m "severity" (.str "medium".toList)),
  ("confidence".toList, field m "confidence" (.str "medium".toList)),
  ("title".toList, field m "title" (.str name)),
  ("description".toList, field m "description" (.str [])),
  ("remediation".toList, field m "remediation" (.str [])),
  ("detector".toList, field m "detector" .null),
  ("state_changing".toList, policyField m "state_changing" (.bool false)),
  ("allowed_environments".toList, policyField m "environments" (.seq []))]

omit u in
/-- The runnable spec of a stored manifest. -/
def _row_spec (name version check_class : Text) (m : List (Text × Yaml)) :
    Except Raised (List (Text × Yaml)) := do
  let reference ← skill_ref name version m
  return specWith name version check_class reference m

omit u in
/-- What runs of a row. -/
def AgentSkill.spec (row : AgentSkill) : Except Raised (List (Text × Yaml)) :=
  _row_spec row.name row.version row.check_class row.manifest

omit u lib in
/-- What comes back from the JSON column of a manifest: the same keys, which are texts and distinct, and each
value as it comes back. -/
def column : List (Text × Yaml) → Option (List (Text × Yaml))
  | [] => some []
  | (key, value) :: rest => do
    let value ← value.stored
    let rest ← column rest
    return (key, value) :: rest

/-! ### Registration -/

/-- A registration is refused, or raises. -/
inductive RegisterError
  | SkillVersionConflict (name version : Text) (existing_id : ℕ)
  | MultipleResultsFound
  | raised (exc : Raised)

/-- The rows; `registered` are the documents that were registered, and for whom, which nothing reads but the
specification. -/
structure SkillTable where
  rows : List AgentSkill := []
  nextId : ℕ := 0
  registered : List (Option ℕ × Text) := []

/-- A document that is submitted. -/
structure Submission where
  org_id : Option ℕ
  text : Text
  provenance : Text

namespace SkillTable

omit u lib in
/-- The rows of a version. -/
def find (t : SkillTable) (org_id : Option ℕ) (name version : Text) : List AgentSkill :=
  t.rows.filter fun row ↦ row.name = name ∧ row.version = version ∧ row.org_id = org_id

omit u in
def register_manifest (t : SkillTable) (manifest : SkillManifest) (provenance : Text)
    (org_id : Option ℕ) : Except RegisterError SkillTable := do
  let payload ← manifest.payload.mapError .raised
  match t.find org_id manifest.name manifest.version with
  | _ :: _ :: _ => throw .MultipleResultsFound
  | [existing] =>
    let old ← (manifest_hash existing.manifest).mapError .raised
    let new ← (manifest_hash payload).mapError .raised
    if old = new ∧ existing.check_class = manifest.check_class then
      return { t with rows := t.rows.map fun row ↦
        if row.id = existing.id then { row with enabled := !manifest.needs_code, provenance } else row }
    else throw (.SkillVersionConflict manifest.name manifest.version existing.id)
  | [] =>
    match column payload with
    | none => throw (.raised .TypeError)
    | some stored =>
      return { t with
        rows := t.rows ++ [{
          id := t.nextId, org_id, name := manifest.name, version := manifest.version
          check_class := manifest.check_class, manifest := stored, enabled := !manifest.needs_code
          provenance }]
        nextId := t.nextId + 1 }

/-- A document is parsed and registered. -/
def call (t : SkillTable) (e : Submission) : Except RegisterError SkillTable := do
  let manifest ← (parse_skill_md e.text).mapError .raised
  let t ← t.register_manifest manifest e.provenance e.org_id
  return { t with registered := t.registered ++ [(e.org_id, e.text)] }

/-- A call that fails leaves the table as it is. -/
def step (t : SkillTable) (e : Submission) : Option SkillTable :=
  some (match t.call e with
    | .ok t' => t'
    | .error _ => t)

/-- **The condition on a submission**: no mapping of what it stores changes its order when its keys become
texts, nor has a value or a key that JSON does not know; and where its version is registered, the first eight
digits of the hash tell what is hashed of it from what is hashed of the row. -/
def Plain (t : SkillTable) (e : Submission) : Prop :=
  ∀ manifest payload, parse_skill_md e.text = .ok manifest → manifest.payload = .ok payload →
    (∀ x ∈ payload, x.2.faithful = true) ∧
      ∀ row ∈ t.find e.org_id manifest.name manifest.version, ∀ stored old new,
        column payload = some stored → manifest_hash row.manifest = .ok old → manifest_hash stored = .ok new →
          old.take 8 = new.take 8 → Yaml.Same (stable row.manifest) (stable stored)

end SkillTable

/-! ### Manifests -/

omit u lib in
/-- The keys of a stored manifest. -/
def payloadKeys : List Text := [
  "intensity".toList, "allowed_tools".toList, "policy".toList, "needs_code".toList, "executable".toList,
  "declarative".toList, "detector".toList, "cwe".toList, "severity".toList, "confidence".toList,
  "title".toList, "description".toList, "remediation".toList, "validation".toList, "tested".toList,
  "body_preview".toList]

omit u lib in
theorem payload_shape {m : SkillManifest} {payload : List (Text × Yaml)} (h : m.payload = .ok payload) :
    payload.map Prod.fst = payloadKeys ∧ payload.lookup "policy".toList = some (.map m.policy) := by
  rw [SkillManifest.payload] at h
  cases hdeclarative : manifest_is_executable m.spec with
  | error exc =>
    rw [hdeclarative] at h
    cases h
  | ok declarative =>
    rw [hdeclarative] at h
    rw [← Except.ok.inj h]
    exact ⟨rfl, rfl⟩

omit u lib in
theorem nodup_payloadKeys : payloadKeys.Nodup := by decide

omit u lib in
/-- A column keeps the keys, and brings back each value. -/
theorem column_lookup {l m : List (Text × Yaml)} (h : column l = some m) :
    m.map Prod.fst = l.map Prod.fst ∧ ∀ {key v}, l.lookup key = some v → m.lookup key = v.stored := by
  induction l generalizing m with
  | nil =>
    obtain rfl := Option.some.inj h
    exact ⟨rfl, nofun⟩
  | cons e rest ih =>
    obtain ⟨k, v⟩ := e
    rw [column] at h
    obtain ⟨v', hv', h⟩ := Option.bind_eq_some_iff.1 h
    obtain ⟨m', hm', h⟩ := Option.bind_eq_some_iff.1 h
    obtain rfl := Option.some.inj h
    obtain ⟨hkeys, hlookup⟩ := ih hm'
    refine ⟨by rw [List.map_cons, List.map_cons, hkeys], fun {key w} hw ↦ ?_⟩
    rw [List.lookup_cons] at hw ⊢
    cases hk : key == k with
    | true =>
      rw [hk] at hw
      rw [← Option.some.inj hw]
      exact hv'.symm
    | false =>
      rw [hk] at hw
      exact hlookup hw

omit u lib in
/-- What comes back of faithful values is hashed as they are. -/
theorem column_of_faithful {l : List (Text × Yaml)} (h : ∀ x ∈ l, x.2.faithful = true) :
    ∃ m L, column l = some m ∧ List.Forall₂ Yaml.HashedAs l L ∧ List.Forall₂ Yaml.HashedAs m L := by
  induction l with
  | nil => exact ⟨[], [], rfl, .nil, .nil⟩
  | cons e rest ih =>
    obtain ⟨k, v⟩ := e
    obtain ⟨hv, hrest⟩ := List.forall_mem_cons.1 h
    obtain ⟨v', c, hstored, hcanon, hcanon'⟩ := Yaml.canonical_stored hv
    obtain ⟨m, L, hm, hl, hl'⟩ := ih hrest
    exact ⟨(k, v') :: m, (k, c) :: L, by rw [column, hstored, hm]; rfl, .cons ⟨rfl, hcanon⟩ hl,
      .cons ⟨rfl, hcanon'⟩ hl'⟩

omit u lib in
theorem forall₂_stable {l : List (Text × Yaml)} {L : List (Text × Json)}
    (h : List.Forall₂ Yaml.HashedAs l L) :
    List.Forall₂ Yaml.HashedAs (stable l) (L.filter fun e ↦ e.1 ∉ _MUTABLE_MANIFEST_KEYS) := by
  rw [stable]
  induction h with
  | nil => exact .nil
  | @cons e x _ _ hx _ ih =>
    rw [List.filter_cons, List.filter_cons, hx.1]
    split
    · exact .cons hx ih
    · exact ih

omit u in
theorem manifest_hash_eq {m : List (Text × Yaml)} {document : Json}
    (h : (Yaml.dict (stable m)).canonical = some document) :
    manifest_hash m = .ok (lib.sha256 (dumps document)) := by rw [manifest_hash, h]

omit u in
/-- **A faithful manifest and what comes back of it have one hash.** -/
theorem manifest_hash_column {payload stored : List (Text × Yaml)} (h : ∀ x ∈ payload, x.2.faithful = true)
    (hstored : column payload = some stored) :
    ∃ hash, manifest_hash payload = .ok hash ∧ manifest_hash stored = .ok hash := by
  obtain ⟨m, L, hm, hl, hl'⟩ := column_of_faithful h
  obtain rfl := Option.some.inj (hm.symm.trans hstored)
  have hc := manifest_hash_eq (Yaml.canonical_dict (forall₂_stable hl))
  have hc' := manifest_hash_eq (Yaml.canonical_dict (forall₂_stable hl'))
  exact ⟨_, hc, hc'⟩

omit u in
/-- Manifests that are hashed alike have one hash. -/
theorem manifest_hash_of_same {m m' : List (Text × Yaml)} (h : Yaml.Same (stable m) (stable m')) :
    manifest_hash m = manifest_hash m' := by
  obtain ⟨c, hc, hc'⟩ := h
  rw [manifest_hash, hc, manifest_hash, hc']

/-! ### Specs -/

omit u lib in
/-- What a faithful manifest left in a column. -/
def Written (m : List (Text × Yaml)) : Prop :=
  ∃ (manifest : SkillManifest) (payload : List (Text × Yaml)), manifest.payload = .ok payload ∧
    (∀ x ∈ payload, x.2.faithful = true) ∧ column payload = some m

omit u lib in
theorem Written.nodup {m : List (Text × Yaml)} (h : Written m) : (m.map Prod.fst).Nodup := by
  obtain ⟨manifest, payload, hpayload, -, hm⟩ := h
  rw [(column_lookup hm).1, (payload_shape hpayload).1]
  exact nodup_payloadKeys

omit u lib in
/-- Its policy is a mapping with text keys. -/
theorem Written.policy {m : List (Text × Yaml)} (h : Written m) :
    ∃ l, m.lookup "policy".toList = some (.dict l) ∧ (l.map Prod.fst).Nodup := by
  obtain ⟨manifest, payload, hpayload, hfaithful, hm⟩ := h
  have hlookup := (payload_shape hpayload).2
  have hkeys : (payload.map Prod.fst).Nodup := (payload_shape hpayload).1 ▸ nodup_payloadKeys
  have hmem : ("policy".toList, Yaml.map manifest.policy) ∈ payload :=
    (Yaml.lookup_eq_some_iff_mem hkeys).1 hlookup
  obtain ⟨y, c, hstored, -, -⟩ := Yaml.canonical_stored (hfaithful _ hmem)
  obtain ⟨l, rfl, hnodup⟩ := Yaml.dict_of_stored hstored
  exact ⟨l, ((column_lookup hm).2 hlookup).trans hstored, hnodup⟩

omit u in
theorem Written.hash {m : List (Text × Yaml)} (h : Written m) : ∃ hash, manifest_hash m = .ok hash := by
  obtain ⟨manifest, payload, -, hfaithful, hm⟩ := h
  obtain ⟨hash, -, hhash⟩ := manifest_hash_column hfaithful hm
  exact ⟨hash, hhash⟩

omit u lib in
theorem stable_lookup (m : List (Text × Yaml)) {key : Text} (hkey : key ∉ _MUTABLE_MANIFEST_KEYS) :
    (stable m).lookup key = m.lookup key := by
  rw [stable]
  induction m with
  | nil => rfl
  | cons e rest ih =>
    obtain ⟨k, v⟩ := e
    rw [List.filter_cons, List.lookup_cons]
    by_cases hk : key = k
    · subst hk
      rw [if_pos (decide_eq_true hkey), List.lookup_cons, beq_self_eq_true]
    · rw [beq_false_of_ne hk]
      split
      · rw [List.lookup_cons, beq_false_of_ne hk]
        exact ih
      · exact ih

omit u lib in
theorem nodup_stable {m : List (Text × Yaml)} (h : (m.map Prod.fst).Nodup) :
    ((stable m).map Prod.fst).Nodup := h.sublist (List.filter_sublist.map _)

omit u lib in
/-- The fields that are hashed are the same. -/
theorem field_same {m m' : List (Text × Yaml)} (hm : Written m) (h : Yaml.Same (stable m) (stable m'))
    {key : String} (hkey : key.toList ∉ _MUTABLE_MANIFEST_KEYS) {default : Yaml}
    (hdefault : Yaml.SameValue default default) :
    Yaml.SameValue (field m key default) (field m' key default) := by
  have hsame := h.getD (nodup_stable hm.nodup) key.toList hdefault
  rwa [stable_lookup m hkey, stable_lookup m' hkey] at hsame

omit u lib in
theorem policyField_same {m m' : List (Text × Yaml)} (hm : Written m) (hm' : Written m')
    (h : Yaml.Same (stable m) (stable m')) (key : String) {default : Yaml}
    (hdefault : Yaml.SameValue default default) :
    Yaml.SameValue (policyField m key default) (policyField m' key default) := by
  obtain ⟨l, hl, hnodup⟩ := hm.policy
  obtain ⟨l', hl', -⟩ := hm'.policy
  have hpolicy : Yaml.Same l l' := by
    have hkey : "policy".toList ∉ _MUTABLE_MANIFEST_KEYS := by decide
    have hnull : Yaml.SameValue .null .null := ⟨_, rfl, rfl⟩
    have hfield := field_same hm h hkey hnull
    rw [field, hl, field, hl'] at hfield
    exact hfield
  have hget : ∀ {m l}, m.lookup "policy".toList = some (Yaml.dict l) →
      policyField m key default = (l.lookup key.toList).getD default := by
    intro m l hlookup
    rw [policyField, field, hlookup]
    exact Yaml.get_dict l key default
  rw [hget hl, hget hl']
  exact hpolicy.getD hnodup key.toList hdefault

omit u in
/-- **Manifests that are hashed alike run alike.** -/
theorem row_spec_same (name version check_class : Text) {m m' : List (Text × Yaml)} (hm : Written m)
    (hm' : Written m') (h : Yaml.Same (stable m) (stable m')) :
    ∃ a b, _row_spec name version check_class m = .ok a ∧ _row_spec name version check_class m' = .ok b ∧
      Yaml.Same a b := by
  obtain ⟨hash, hhash⟩ := hm.hash
  have hhash' : manifest_hash m' = .ok hash := (manifest_hash_of_same h).symm.trans hhash
  refine ⟨_, _, by rw [_row_spec, skill_ref, hhash]; rfl, by rw [_row_spec, skill_ref, hhash']; rfl, ?_⟩
  have hscalar : ∀ {y : Yaml} {c : Json}, y.canonical = some c → Yaml.SameValue y y := fun hc ↦ ⟨_, hc, hc⟩
  have hfield : ∀ {key : String} {default : Yaml}, key.toList ∉ _MUTABLE_MANIFEST_KEYS →
      Yaml.SameValue default default → Yaml.SameValue (field m key default) (field m' key default) :=
    fun hkey hdefault ↦ field_same hm h hkey hdefault
  refine Yaml.same_of_forall₂ ?_
  rw [specWith, specWith]
  refine .cons ⟨rfl, hscalar rfl⟩ (.cons ⟨rfl, hscalar rfl⟩ (.cons ⟨rfl, hscalar rfl⟩
    (.cons ⟨rfl, hscalar rfl⟩ (.cons ⟨rfl, hfield (by decide) (hscalar rfl)⟩
    (.cons ⟨rfl, hfield (by decide) (hscalar rfl)⟩ (.cons ⟨rfl, hfield (by decide) (hscalar rfl)⟩
    (.cons ⟨rfl, hfield (by decide) (hscalar rfl)⟩ (.cons ⟨rfl, hfield (by decide) (hscalar rfl)⟩
    (.cons ⟨rfl, hfield (by decide) (hscalar rfl)⟩ (.cons ⟨rfl, hfield (by decide) (hscalar rfl)⟩
    (.cons ⟨rfl, hfield (by decide) (hscalar rfl)⟩ (.cons ⟨rfl, ?_⟩ (.cons ⟨rfl, ?_⟩ .nil)))))))))))))
  · exact policyField_same hm hm' h "state_changing" (hscalar rfl)
  · exact policyField_same hm hm' h "environments" (hscalar rfl)

omit u in
/-- Specs that are the same have one class, and their references the same digits. -/
theorem of_row_spec_same {name version check_class check_class' : Text} {m m' a b : List (Text × Yaml)}
    (ha : _row_spec name version check_class m = .ok a)
    (hb : _row_spec name version check_class' m' = .ok b) (h : Yaml.Same a b) :
    check_class = check_class' ∧ ∃ old new, manifest_hash m = .ok old ∧ manifest_hash m' = .ok new ∧
      old.take 8 = new.take 8 := by
  have hspec : ∀ {check_class : Text} {m a : List (Text × Yaml)},
      _row_spec name version check_class m = .ok a → ∃ hash, manifest_hash m = .ok hash ∧
        a = specWith name version check_class (name ++ "@".toList ++ version ++ "#".toList ++ hash.take 8) m := by
    intro check_class m a ha
    rw [_row_spec, skill_ref] at ha
    cases hhash : manifest_hash m with
    | error exc =>
      rw [hhash] at ha
      cases ha
    | ok hash =>
      rw [hhash] at ha
      exact ⟨hash, rfl, (Except.ok.inj ha).symm⟩
  obtain ⟨old, hold, rfl⟩ := hspec ha
  obtain ⟨new, hnew, rfl⟩ := hspec hb
  have hnodup : ∀ {reference : Text},
      ((specWith name version check_class reference m).map Prod.fst).Nodup := by
    intro reference
    show (["name".toList, "version".toList, "check_class".toList, "skill_ref".toList, "intensity".toList,
      "cwe".toList, "severity".toList, "confidence".toList, "title".toList, "description".toList,
      "remediation".toList, "detector".toList, "state_changing".toList,
      "allowed_environments".toList] : List Text).Nodup
    decide
  -- the two entries that decide
  have htext : ∀ (key : Text) {x y : Text},
      (specWith name version check_class (name ++ "@".toList ++ version ++ "#".toList ++ old.take 8) m).lookup
        key = some (.str x) →
      (specWith name version check_class' (name ++ "@".toList ++ version ++ "#".toList ++ new.take 8)
        m').lookup key = some (.str y) → x = y := by
    intro key x y hx hy
    rcases h.lookup hnodup key with ⟨hnone, -⟩ | ⟨v, w, hv, hw, c, hc, hc'⟩
    · rw [hx] at hnone
      cases hnone
    · obtain rfl := Option.some.inj (hx.symm.trans hv)
      obtain rfl := Option.some.inj (hy.symm.trans hw)
      exact Json.str.inj (Option.some.inj (hc.trans hc'.symm))
  have hclass : check_class = check_class' := htext "check_class".toList rfl rfl
  have hreference := htext "skill_ref".toList rfl rfl
  exact ⟨hclass, old, new, hold, hnew, List.append_cancel_left hreference⟩

/-- What parses can be hashed in form: its detector has a type that can be looked up. -/
theorem payload_of_parse {text : Text} {manifest : SkillManifest}
    (h : parse_skill_md text = .ok manifest) : ∃ payload, manifest.payload = .ok payload := by
  rw [parse_skill_md] at h
  generalize _split_frontmatter text = split at h
  obtain ⟨fm, body⟩ := split
  cases hdeclarative : manifest_is_executable (metaOf fm) with
  | error exc =>
    simp only [bind, Except.bind, hdeclarative] at h
    cases h
  | ok declarative =>
    cases hvalidation : validationOf (metaOf fm) with
    | error exc =>
      simp only [bind, Except.bind, hdeclarative, hvalidation] at h
      cases h
    | ok validation =>
      simp only [bind, Except.bind, hdeclarative, hvalidation] at h
      rw [← Except.ok.inj h, SkillManifest.payload, hdeclarative]
      exact ⟨_, rfl⟩

/-! ### Calls -/

namespace SkillTable

variable {t t' : SkillTable} {e : Submission} {manifest : SkillManifest} {payload : List (Text × Yaml)}

omit u lib in
/-- What a registration writes to a row that is there. -/
def renew (existing_id : ℕ) (enabled : Bool) (provenance : Text) (row : AgentSkill) : AgentSkill :=
  if row.id = existing_id then { row with enabled, provenance } else row

omit u lib in
theorem renew_fields (existing_id : ℕ) (enabled : Bool) (provenance : Text) (row : AgentSkill) :
    let row' := renew existing_id enabled provenance row
    row'.id = row.id ∧ row'.org_id = row.org_id ∧ row'.name = row.name ∧ row'.version = row.version ∧
      row'.check_class = row.check_class ∧ row'.manifest = row.manifest := by
  show _ ∧ _
  rw [renew]
  split <;> exact ⟨rfl, rfl, rfl, rfl, rfl, rfl⟩

omit u lib in
/-- Renewing a row finds the same rows. -/
theorem find_renew {existing_id : ℕ} {enabled : Bool} {provenance : Text}
    (h : t'.rows = t.rows.map (renew existing_id enabled provenance)) (org_id : Option ℕ)
    (name version : Text) : t'.find org_id name version =
      (t.find org_id name version).map (renew existing_id enabled provenance) := by
  rw [find, h, List.filter_map, find]
  congr 1
  refine List.filter_congr fun row _ ↦ ?_
  obtain ⟨-, horg, hname, hversion, -, -⟩ := renew_fields existing_id enabled provenance row
  show decide (_ ∧ _ ∧ _) = decide (_ ∧ _ ∧ _)
  rw [horg, hname, hversion]

/-- **A call for a version that is registered**: it succeeds if the hashes and the classes are the same. -/
theorem call_existing (hparse : parse_skill_md e.text = .ok manifest) (hpayload : manifest.payload = .ok payload)
    {row : AgentSkill} (hfind : t.find e.org_id manifest.name manifest.version = [row])
    {old new : Text} (hold : manifest_hash row.manifest = .ok old) (hnew : manifest_hash payload = .ok new) :
    (∃ t', t.call e = .ok t') ↔ old = new ∧ row.check_class = manifest.check_class := by
  rw [call, hparse]
  simp only [register_manifest, hpayload, hfind, hold, hnew, Except.mapError, bind, Except.bind]
  by_cases hsame : old = new ∧ row.check_class = manifest.check_class
  · rw [if_pos hsame]
    exact iff_of_true ⟨_, rfl⟩ hsame
  · rw [if_neg hsame]
    exact iff_of_false (fun ⟨_, h⟩ ↦ by cases h) hsame

/-- **What a call that succeeds has done**: it has renewed a row with the same hash and class, or added the
first row of a version. -/
theorem call_ok (h : t.call e = .ok t') : ∃ manifest payload,
    parse_skill_md e.text = .ok manifest ∧ manifest.payload = .ok payload ∧
    t'.registered = t.registered ++ [(e.org_id, e.text)] ∧
    ((∃ row hash, t.find e.org_id manifest.name manifest.version = [row] ∧
        manifest_hash row.manifest = .ok hash ∧ manifest_hash payload = .ok hash ∧
        row.check_class = manifest.check_class ∧
        t'.rows = t.rows.map (renew row.id (!manifest.needs_code) e.provenance)) ∨
      t.find e.org_id manifest.name manifest.version = [] ∧ ∃ row : AgentSkill,
        column payload = some row.manifest ∧ row.org_id = e.org_id ∧ row.name = manifest.name ∧
        row.version = manifest.version ∧ row.check_class = manifest.check_class ∧
        t'.rows = t.rows ++ [row]) := by
  cases hparse : parse_skill_md e.text with
  | error exc =>
    rw [call, hparse] at h
    cases h
  | ok manifest =>
    obtain ⟨payload, hpayload⟩ := payload_of_parse hparse
    refine ⟨manifest, payload, rfl, hpayload, ?_⟩
    rw [call, hparse] at h
    match hfind : t.find e.org_id manifest.name manifest.version with
    | _ :: _ :: _ =>
      simp only [register_manifest, hpayload, hfind, Except.mapError, bind, Except.bind] at h
      cases h
    | [] =>
      simp only [register_manifest, hpayload, hfind, Except.mapError, bind, Except.bind] at h
      cases hcolumn : column payload with
      | none =>
        rw [hcolumn] at h
        cases h
      | some stored =>
        rw [hcolumn] at h
        rw [← Except.ok.inj h]
        exact ⟨rfl, Or.inr ⟨rfl, _, rfl, rfl, rfl, rfl, rfl, rfl⟩⟩
    | [row] =>
      cases hold : manifest_hash row.manifest with
      | error exc =>
        simp only [register_manifest, hpayload, hfind, hold, Except.mapError, bind, Except.bind] at h
        cases h
      | ok old =>
        cases hnew : manifest_hash payload with
        | error exc =>
          simp only [register_manifest, hpayload, hfind, hold, hnew, Except.mapError, bind, Except.bind] at h
          cases h
        | ok new =>
          simp only [register_manifest, hpayload, hfind, hold, hnew, Except.mapError, bind, Except.bind] at h
          by_cases hsame : old = new ∧ row.check_class = manifest.check_class
          · rw [if_pos hsame] at h
            rw [← Except.ok.inj h]
            exact ⟨rfl, Or.inl ⟨row, old, rfl, hold, by rw [hsame.1], hsame.2, rfl⟩⟩
          · rw [if_neg hsame] at h
            cases h

/-! ### The invariant -/

/-- A document that was registered has the only row of its version, with its hash and its class. -/
def Settled (t : SkillTable) (org_id : Option ℕ) (text : Text) : Prop :=
  ∃ manifest payload row hash, parse_skill_md text = .ok manifest ∧ manifest.payload = .ok payload ∧
    t.find org_id manifest.name manifest.version = [row] ∧ row.check_class = manifest.check_class ∧
    manifest_hash payload = .ok hash ∧ manifest_hash row.manifest = .ok hash

/-- Every row is what a faithful manifest left, each version has at most one row, and every document that was
registered is settled. -/
structure Inv (t : SkillTable) : Prop where
  written : ∀ row ∈ t.rows, Written row.manifest
  unique : ∀ org_id name version, (t.find org_id name version).length ≤ 1
  settled : ∀ x ∈ t.registered, t.Settled x.1 x.2

/-- Renewing a row keeps what is settled. -/
theorem Settled.renew {existing_id : ℕ} {enabled : Bool} {provenance : Text}
    (hrows : t'.rows = t.rows.map (renew existing_id enabled provenance)) {org_id : Option ℕ} {text : Text}
    (h : t.Settled org_id text) : t'.Settled org_id text := by
  obtain ⟨manifest, payload, row, hash, hparse, hpayload, hfind, hclass, hhash, hrow⟩ := h
  obtain ⟨-, -, -, -, hclass', hmanifest⟩ := renew_fields existing_id enabled provenance row
  refine ⟨manifest, payload, SkillTable.renew existing_id enabled provenance row, hash, hparse, hpayload, ?_,
    hclass'.trans hclass, hhash, hmanifest ▸ hrow⟩
  rw [find_renew hrows, hfind, List.map_singleton]

/-- So does adding a row of another version. -/
theorem Settled.append {row : AgentSkill} (hrows : t'.rows = t.rows ++ [row])
    (hnew : t.find row.org_id row.name row.version = []) {org_id : Option ℕ} {text : Text}
    (h : t.Settled org_id text) : t'.Settled org_id text := by
  obtain ⟨manifest, payload, old, hash, hparse, hpayload, hfind, hrest⟩ := h
  refine ⟨manifest, payload, old, hash, hparse, hpayload, ?_, hrest⟩
  have hother : ¬(row.name = manifest.name ∧ row.version = manifest.version ∧ row.org_id = org_id) := by
    rintro ⟨hname, hversion, horg⟩
    rw [hname, hversion, horg, hfind] at hnew
    cases hnew
  rw [find, hrows, List.filter_append, List.filter_cons, if_neg (by simpa using hother), List.filter_nil,
    List.append_nil]
  exact hfind

/-- **The step lemma.** -/
theorem Inv.of_call (hI : t.Inv) (hP : t.Plain e) (h : t.call e = .ok t') : t'.Inv := by
  obtain ⟨manifest, payload, hparse, hpayload, hregistered, hdone⟩ := call_ok h
  obtain ⟨hfaithful, -⟩ := hP manifest payload hparse hpayload
  rcases hdone with ⟨row, hash, hfind, hrow, hhash, hclass, hrows⟩ | ⟨hfind, row, hcolumn, horg, hname,
    hversion, hclass, hrows⟩
  · have hkept : ∀ {org_id text}, t.Settled org_id text → t'.Settled org_id text := Settled.renew hrows
    refine ⟨fun row' hrow' ↦ ?_, fun org_id name version ↦ ?_, fun x hx ↦ ?_⟩
    · rw [hrows] at hrow'
      obtain ⟨old, hold, rfl⟩ := List.mem_map.1 hrow'
      obtain ⟨-, -, -, -, -, hmanifest⟩ := renew_fields row.id (!manifest.needs_code) e.provenance old
      rw [hmanifest]
      exact hI.written old hold
    · rw [find_renew hrows, List.length_map]
      exact hI.unique org_id name version
    · rw [hregistered] at hx
      rcases List.mem_append.1 hx with hold | hnew
      · exact hkept (hI.settled x hold)
      · rw [List.mem_singleton.1 hnew]
        exact hkept ⟨manifest, payload, row, hash, hparse, hpayload, hfind, hclass, hhash, hrow⟩
  · have hfind' : t.find row.org_id row.name row.version = [] := by rw [horg, hname, hversion, hfind]
    have hself : t'.find row.org_id row.name row.version = [row] := by
      rw [find, hrows, List.filter_append, ← find, hfind', List.nil_append, List.filter_cons,
        if_pos (decide_eq_true ⟨rfl, rfl, rfl⟩), List.filter_nil]
    refine ⟨fun row' hrow' ↦ ?_, fun org_id name version ↦ ?_, fun x hx ↦ ?_⟩
    · rw [hrows] at hrow'
      rcases List.mem_append.1 hrow' with hold | hnew
      · exact hI.written row' hold
      · rw [List.mem_singleton.1 hnew]
        exact ⟨manifest, payload, hpayload, hfaithful, hcolumn⟩
    · by_cases hown : row.name = name ∧ row.version = version ∧ row.org_id = org_id
      · obtain ⟨rfl, rfl, rfl⟩ := hown
        rw [hself, List.length_singleton]
      · rw [find, hrows, List.filter_append, List.filter_cons, if_neg (by simpa using hown), List.filter_nil,
          List.append_nil]
        exact hI.unique org_id name version
    · rw [hregistered] at hx
      rcases List.mem_append.1 hx with hold | hnew
      · exact (hI.settled x hold).append hrows hfind'
      · -- the row that was added has the hash of what was submitted
        rw [List.mem_singleton.1 hnew]
        obtain ⟨hash, hhash, hstored⟩ := manifest_hash_column hfaithful hcolumn
        refine ⟨manifest, payload, row, hash, hparse, hpayload, ?_, hclass, hhash, hstored⟩
        rw [← horg, ← hname, ← hversion]
        exact hself

theorem Inv.of_step (hI : t.Inv) (hP : t.Plain e) (h : t.step e = some t') : t'.Inv := by
  rw [step] at h
  cases hcall : t.call e with
  | error exc =>
    rw [hcall] at h
    exact Option.some.inj h ▸ hI
  | ok t₁ =>
    rw [hcall] at h
    exact Option.some.inj h ▸ hI.of_call hP hcall

/-! ### The three clauses -/

/-- **No call changes what runs of a row.** -/
theorem spec_of_step (h : t.step e = some t') :
    ∀ row ∈ t.rows, ∃ row' ∈ t'.rows, row'.id = row.id ∧ row'.spec = row.spec := by
  intro row hrow
  rw [step] at h
  cases hcall : t.call e with
  | error exc =>
    rw [hcall] at h
    exact ⟨row, Option.some.inj h ▸ hrow, rfl, rfl⟩
  | ok t₁ =>
    rw [hcall] at h
    obtain rfl := Option.some.inj h
    obtain ⟨manifest, payload, -, -, -, hdone⟩ := call_ok hcall
    rcases hdone with ⟨existing, hash, -, -, -, -, hrows⟩ | ⟨-, added, -, -, -, -, -, hrows⟩
    · obtain ⟨hid, -, hname, hversion, hclass, hmanifest⟩ :=
        renew_fields existing.id (!manifest.needs_code) e.provenance row
      refine ⟨renew existing.id (!manifest.needs_code) e.provenance row, ?_, hid, ?_⟩
      · rw [hrows]
        exact List.mem_map_of_mem hrow
      · rw [AgentSkill.spec, hname, hversion, hclass, hmanifest, AgentSkill.spec]
    · exact ⟨row, by rw [hrows]; exact List.mem_append_left _ hrow, rfl, rfl⟩

/-- **What was registered is registered again.** -/
theorem Settled.again {org_id : Option ℕ} {text : Text} (h : t.Settled org_id text) (provenance : Text) :
    ∃ t', t.call { org_id, text, provenance } = .ok t' := by
  obtain ⟨manifest, payload, row, hash, hparse, hpayload, hfind, hclass, hhash, hrow⟩ := h
  exact (call_existing (e := { org_id, text, provenance }) hparse hpayload hfind hrow hhash).2 ⟨rfl, hclass⟩

/-- **A version is registered again exactly if what would be stored of it runs as what is stored.** -/
theorem Inv.call_iff (hI : t.Inv) (hP : t.Plain e) (hparse : parse_skill_md e.text = .ok manifest)
    (hpayload : manifest.payload = .ok payload) {row : AgentSkill}
    (hrow : row ∈ t.find e.org_id manifest.name manifest.version) :
    (∃ t', t.call e = .ok t') ↔ ∃ stored a b, column payload = some stored ∧ row.spec = .ok a ∧
      _row_spec manifest.name manifest.version manifest.check_class stored = .ok b ∧ Yaml.Same a b := by
  obtain ⟨hfaithful, htold⟩ := hP manifest payload hparse hpayload
  obtain ⟨stored, -, hstored, -, -⟩ := column_of_faithful hfaithful
  obtain ⟨new, hnew, hnew'⟩ := manifest_hash_column hfaithful hstored
  obtain ⟨hmem, hfields⟩ := List.mem_filter.1 hrow
  obtain ⟨hname, hversion, -⟩ := of_decide_eq_true hfields
  have hwritten := hI.written row hmem
  obtain ⟨old, hold⟩ := hwritten.hash
  have hfind : t.find e.org_id manifest.name manifest.version = [row] := by
    have hlength := hI.unique e.org_id manifest.name manifest.version
    match hrows : t.find e.org_id manifest.name manifest.version with
    | [] =>
      rw [hrows] at hrow
      exact absurd hrow List.not_mem_nil
    | [r] =>
      rw [hrows] at hrow
      rw [List.mem_singleton.1 hrow]
    | _ :: _ :: _ =>
      rw [hrows, List.length_cons, List.length_cons] at hlength
      omega
  have htell : old.take 8 = new.take 8 → Yaml.Same (stable row.manifest) (stable stored) :=
    htold row hrow stored old new hstored hold hnew'
  rw [call_existing hparse hpayload hfind hold hnew]
  constructor
  · rintro ⟨rfl, hclass⟩
    obtain ⟨a, b, ha, hb, hab⟩ := row_spec_same manifest.name manifest.version manifest.check_class hwritten
      ⟨manifest, payload, hpayload, hfaithful, hstored⟩ (htell rfl)
    refine ⟨stored, a, b, hstored, ?_, hb, hab⟩
    rw [AgentSkill.spec, hname, hversion, hclass, ha]
  · rintro ⟨stored', a, b, hstored', ha, hb, hab⟩
    obtain rfl := Option.some.inj (hstored.symm.trans hstored')
    rw [AgentSkill.spec, hname, hversion] at ha
    obtain ⟨hclass, old', new', hold', hnew'', hdigits⟩ := of_row_spec_same ha hb hab
    obtain rfl := Except.ok.inj (hold.symm.trans hold')
    obtain rfl := Except.ok.inj (hnew'.symm.trans hnew'')
    have hhash := manifest_hash_of_same (htell hdigits)
    rw [hold, hnew'] at hhash
    exact ⟨Except.ok.inj hhash, hclass⟩

/-- **Versions are immutable, and registration is idempotent**, in every state of a run whose submissions meet
the condition: a registered version is registered again exactly by what runs as it does, a document that was
registered can be registered again, and no call changes what runs of a row. -/
theorem versions_immutable {es : List Submission} (hP : Machine.Along step Plain {} es)
    (h : Machine.run step {} es = some t) :
    (∀ e manifest payload, t.Plain e → parse_skill_md e.text = .ok manifest → manifest.payload = .ok payload →
      ∀ row ∈ t.find e.org_id manifest.name manifest.version,
        (∃ t', t.call e = .ok t') ↔ ∃ stored a b, column payload = some stored ∧ row.spec = .ok a ∧
          _row_spec manifest.name manifest.version manifest.check_class stored = .ok b ∧ Yaml.Same a b) ∧
    (∀ x ∈ t.registered, ∀ provenance, ∃ t', t.call { org_id := x.1, text := x.2, provenance } = .ok t') ∧
    ∀ e t', t.step e = some t' →
      ∀ row ∈ t.rows, ∃ row' ∈ t'.rows, row'.id = row.id ∧ row'.spec = row.spec := by
  have hempty : Inv {} := ⟨fun row hrow ↦ absurd hrow List.not_mem_nil, fun _ _ _ ↦ Nat.zero_le 1,
    fun x hx ↦ absurd hx List.not_mem_nil⟩
  have hI : t.Inv := Machine.inv_of_run_along (fun hI hP hs ↦ hI.of_step hP hs) hP h hempty
  refine ⟨fun e manifest payload hplain hparse hpayload row hrow ↦ ?_, fun x hx provenance ↦ ?_,
    fun e t' hs ↦ spec_of_step hs⟩
  · exact hI.call_iff hplain hparse hpayload hrow
  · exact (hI.settled x hx).again provenance

end SkillTable

end

section

attribute [local instance] asciiTables

/-- What is hashed of a document below, with this `cwe` and this policy. -/
def hashed (cwe policy : String) : Text :=
  ("\x7b\"allowed_tools\": [], \"confidence\": \"medium\", \"cwe\": " ++ cwe ++
    ", \"declarative\": false, \"description\": \"\", \"detector\": null, " ++
    "\"executable\": false, \"intensity\": \"passive\", \"needs_code\": true, \"policy\": " ++ policy ++
    ", \"remediation\": \"\", \"severity\": \"medium\", \"title\": \"probe\"\x7d").toList

/-- The libraries, as far as the two documents below use them. -/
@[reducible] def sampleLibrary : SkillLibrary where
  safe_load fm :=
    if fm = "name: probe\ncwe: CWE-200\npolicy:\n  environments: [staging]".toList then
      some (.map [(.str "name".toList, .str "probe".toList), (.str "cwe".toList, .str "CWE-200".toList),
        (.str "policy".toList, .map [(.str "environments".toList, .seq [.str "staging".toList])])])
    else if fm = "name: probe\npolicy:\n  1: a\n  b: c".toList then
      some (.map [(.str "name".toList, .str "probe".toList), (.str "policy".toList, .map [
        (.num "1".toList ((1 : ℚ) : WithTop ℚ), .str "a".toList), (.str "b".toList, .str "c".toList)])])
    else none
  compile _ := .ok none
  sha256 text :=
    if text = hashed "\"CWE-200\"" "\x7b\"environments\": [\"staging\"]\x7d" then
      "766da5d3a0892f9f240aecb3da066f96b5d2c2dbd48dd276cd4704ec4a1a35eb".toList
    else if text = hashed "\"\"" "\x7b\"1\": \"a\", \"b\": \"c\"\x7d" then
      "87936e471cc23b881870bf4235c4917e5403037593f51a739afe22aa1a057d84".toList
    else text
  builtin _ := false

attribute [local instance] sampleLibrary

/-- A document with this head. -/
def submitted (head : String) : Submission where
  org_id := some 1
  text := ("---\n" ++ head ++ "\n---\nbody\n").toList
  provenance := "skill_md".toList

/-- A policy with an environment. -/
def probe : Submission := submitted "name: probe\ncwe: CWE-200\npolicy:\n  environments: [staging]"

/-- A policy with a number and a text for keys. -/
def mixed : Submission := submitted "name: probe\npolicy:\n  1: a\n  b: c"

namespace SkillTable

/-- The rows a document leaves by itself. -/
def registeredOnce (e : Submission) : SkillTable :=
  match ({} : SkillTable).call e with
  | .ok t => t
  | .error _ => {}

/-- Keys that JSON writes as texts: the document is registered, and its own second registration raises. -/
theorem mixed_not_again : ∃ t, Machine.run step {} [mixed] = some t ∧
    (mixed.org_id, mixed.text) ∈ t.registered ∧ ¬∃ t', t.call mixed = .ok t' := by
  have hregistered : (mixed.org_id, mixed.text) ∈ (registeredOnce mixed).registered := by decide +kernel
  have hagain : ((registeredOnce mixed).call mixed).toBool = false := by decide +kernel
  refine ⟨registeredOnce mixed, ?_, hregistered, ?_⟩
  · rw [Machine.run, step, registeredOnce]
    cases hcall : ({} : SkillTable).call mixed with
    | ok t => rfl
    | error exc => rfl
  · rintro ⟨t', h⟩
    rw [h] at hagain
    cases hagain

/-- Every value a document stores is faithful. -/
def storesFaithful (e : Submission) : Bool :=
  match parse_skill_md e.text with
  | .error _ => true
  | .ok manifest =>
    match manifest.payload with
    | .error _ => true
    | .ok payload => payload.all fun x ↦ x.2.faithful

/-- In the empty table that is the whole condition. -/
theorem plain_of_storesFaithful {e : Submission} (h : storesFaithful e = true) : Plain {} e := by
  intro manifest payload hparse hpayload
  rw [storesFaithful, hparse] at h
  simp only [hpayload] at h
  exact ⟨List.all_eq_true.1 h, fun row hrow ↦ absurd hrow List.not_mem_nil⟩

/-- The other document is registered, can be registered again, and what runs of it stays. -/
theorem versions_immutable_probe : ∃ t, Machine.run step {} [probe] = some t ∧
    (∃ t', t.call probe = .ok t') ∧ ∀ e t', t.step e = some t' →
      ∀ row ∈ t.rows, ∃ row' ∈ t'.rows, row'.id = row.id ∧ row'.spec = row.spec := by
  have honce : (({} : SkillTable).call probe).toBool = true := by decide +kernel
  have hfaithful : storesFaithful probe = true := by decide +kernel
  cases hcall : ({} : SkillTable).call probe with
  | error exc =>
    rw [hcall] at honce
    cases honce
  | ok t =>
    have hs : step {} probe = some t := by rw [step, hcall]
    have hrun : Machine.run step {} [probe] = some t := by
      rw [Machine.run_cons, hs]
      rfl
    have halong : Machine.Along step Plain {} [probe] :=
      ⟨plain_of_storesFaithful hfaithful, fun t' _ ↦ trivial⟩
    obtain ⟨-, hagain, hkept⟩ := versions_immutable halong hrun
    obtain ⟨-, -, -, -, hregistered, -⟩ := call_ok hcall
    have hmem : (probe.org_id, probe.text) ∈ t.registered := by
      rw [hregistered]
      exact List.mem_append_right _ (List.mem_singleton.2 rfl)
    exact ⟨t, hrun, hagain _ hmem probe.provenance, hkept⟩

end SkillTable

end

end Skills

end Sentrik
