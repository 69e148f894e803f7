import Mathlib.Data.List.ReduceOption
import Sentrik.Discovery.MergeLaws
import Sentrik.Discovery.Postman

/-!
# GraphQL introspection

All operations of a GraphQL service share one method and one URL. What keeps them apart in the inventory is
the template, which names the root and the field.

The templates have a character that no template of a path has, so an operation shares its location with no
other operation, and with nothing that is reported at the URL itself (`parse_graphql_distinct`).
-/

namespace Sentrik

namespace Discovery

section

variable [u : UnicodeTables]

/-! ### Fields -/

omit u in
/-- A named argument as a parameter, nothing for one without a name. -/
def graphqlParam (a : Json) : Except Raised (Option Dict) := do
  let a ← a.asDict
  if (a.get "name").truthy then
    return some (Dict.recipe [("name", a.getD "name" (Json.text "")), ("in", Json.text "body"),
      ("type", Json.text "graphql"), ("required", .bool false)])
  else return none

/-- The template of an operation. -/
def operationTemplate (root_key : String) (name : Text) : Text :=
  "/graphql#".toList ++ (root_key.toList ++ '.' :: name)

variable [d : DigitTables]

/-- The endpoint of a field, nothing for one without a name. -/
def graphqlEndpoint (endpoint_url : Text) (root_key : String) (fld : Json) :
    Except Raised (Option DiscoveredEndpoint) := do
  let fld ← fld.asDict
  let name := fld.get "name"
  if name.truthy then
    let args ← (fld.getD "args" (.arr [])).iter
    let params ← args.mapM graphqlParam
    let ep ← DiscoveredEndpoint.post_init {
      method := "POST".toList
      url := endpoint_url
      provenance := .GRAPHQL
      parameters := params.reduceOption
      path_template := operationTemplate root_key name.toText
      request_body_schema := Dict.recipe [("operation", Json.text root_key), ("field", name)]
      auth_required := true }
    return some ep
  else return none

/-! ### Types -/

variable [NumberTables]

omit u d in
/-- The types of a schema under their names, a later one in the place of an earlier one. -/
def typeMap (schema : Dict) : Except Raised (List (HashKey × Dict)) := do
  let types ← (schema.getD "types" (.arr [])).iter
  let entries ← (types.filterMap Json.dict?).mapM fun t ↦ do return (← hashKey (t.get "name"), t)
  return Keyed.setAll Prod.fst [] entries

/-- The endpoints of a root. -/
def rootEndpoints (type_map : List (HashKey × Dict)) (schema : Dict) (endpoint_url : Text)
    (root_key : String) : Except Raised (List DiscoveredEndpoint) :=
  match schema.get root_key with
  | .obj root => do
    let key ← hashKey (Dict.get root "name")
    match Keyed.row Prod.fst type_map key with
    | none => return []
    | some (_, root_type) =>
      if root_type.isEmpty then return []
      else
        let fields ← ((root_type.getD "fields" (.arr [])).or (.arr [])).iter
        let eps ← fields.mapM (graphqlEndpoint endpoint_url root_key)
        return eps.reduceOption
  | _ => .ok []

omit u d in
/-- The schema of an introspection result, wrapped or not. -/
def schemaOf (doc : Dict) : Except Raised Json :=
  if (doc.get? "data".toList).isSome then do
    let data ← (doc.getD "data" (.obj [])).asDict
    return data.get "__schema"
  else return doc.get "__schema"

/-- Read an introspection result. What a field raises is not caught. -/
def parse_graphql_introspection [DocumentLibrary] (content : Content) (endpoint_url : Text) :
    Except Raised ParseResult :=
  match _load content with
  | .error err => .ok { warnings := [.text err] }
  | .ok (.obj doc) => do
    match ← schemaOf doc with
    | .obj schema =>
      let type_map ← typeMap schema
      let queries ← rootEndpoints type_map schema endpoint_url "queryType"
      let mutations ← rootEndpoints type_map schema endpoint_url "mutationType"
      return { endpoints := queries ++ mutations }
    | _ => return .warn "no __schema in introspection result"
  | .ok _ => .ok (.warn "GraphQL introspection root is not an object")

/-! ### Artifacts of any kind -/

/-- What the parsers are given beside an artifact. -/
structure ParserOptions where
  base_url : Text := []
  in_scope_hosts : List Text := []
  endpoint_url : Text := []

/-- Dispatch by artifact kind. -/
def parse_artifact [DocumentLibrary] (kind : Text) (content : Content) (kw : ParserOptions) :
    Except Raised ParseResult :=
  let kind := u.lower kind
  if kind ∈ ["openapi".toList, "swagger".toList] then parse_openapi content kw.base_url
  else if kind = "har".toList then .ok (parse_har content kw.in_scope_hosts)
  else if kind = "postman".toList then parse_postman content
  else if kind = "graphql".toList then parse_graphql_introspection content kw.endpoint_url
  else .ok { warnings := [.text ("unknown artifact kind ".toList ++ (Text.repr kind).toList)] }

/-! ### Locations -/

omit u d [NumberTables] in
/-- A field with a name and a list of arguments. -/
structure Field where
  name : Text
  json : Dict
  ne_nil : name ≠ []
  named : json.get "name" = .str name
  args : ∃ args, json.getD "args" (.arr []) = .arr args ∧ ∀ a ∈ args, ∃ fields, a = .obj fields

omit u d in
/-- A root has these fields: its type lists them, or there is no such type. -/
inductive HasFields (schema : Dict) (type_map : List (HashKey × Dict)) (root_key : String) : List Field → Prop
  | absent (h : ∀ root, schema.get root_key ≠ .obj root) : HasFields schema type_map root_key []
  | unknown (root : Dict) (key : HashKey) (hroot : schema.get root_key = .obj root)
      (hkey : hashKey (root.get "name") = .ok key) (htype : Keyed.row Prod.fst type_map key = none) :
      HasFields schema type_map root_key []
  | listed (root : Dict) (key : HashKey) (root_type : Dict) (fields : List Field)
      (hroot : schema.get root_key = .obj root) (hkey : hashKey (root.get "name") = .ok key)
      (htype : Keyed.row Prod.fst type_map key = some (key, root_type)) (hne : root_type ≠ [])
      (hfields : (root_type.getD "fields" (.arr [])).or (.arr []) = .arr (fields.map fun f ↦ .obj f.json)) :
      HasFields schema type_map root_key fields

/-- The artifact is an introspection result with these queries and mutations. -/
structure GraphqlDocument [DocumentLibrary] (content : Content) (queries mutations : List Field) : Prop where
  reads : ∃ doc schema type_map, _load content = .ok (.obj doc) ∧ schemaOf doc = .ok (.obj schema) ∧
    typeMap schema = .ok type_map ∧ HasFields schema type_map "queryType" queries ∧
      HasFields schema type_map "mutationType" mutations

/-- The URL has a host and a port that can be read. -/
def Locatable (url : Text) : Prop := ∃ parts port, Url.urlsplit url = .ok parts ∧ parts.port = .ok port

omit d [NumberTables] in
/-- What a location begins with. -/
def locationFront (method : Text) (parts : Url.SplitResult) (port : Option ℕ) : Text :=
  u.upper method ++ ' ' :: u.lower (parts.hostname.getD []) ++
    ':' :: (toString ((port.filter (· ≠ 0)).getD (if parts.scheme = "https".toList then 443 else 80))).toList

omit [NumberTables] in
theorem fingerprintKey_eq {url : Text} {parts : Url.SplitResult} {port : Option ℕ}
    (hparts : Url.urlsplit url = .ok parts) (hport : parts.port = .ok port) (method template : Text) :
    fingerprintKey method url template = .ok (locationFront method parts port ++
      if template ≠ [] then template
      else templatize_path (if parts.path = [] then ['/'] else parts.path)) := by
  rw [fingerprintKey, hparts]
  show (Except.mapError _ parts.port).bind _ = _
  rw [hport]
  rfl

omit u d [NumberTables] in
/-- The roots differ in their first letter. -/
theorem roots_ne (x y : Text) : "queryType".toList ++ x ≠ "mutationType".toList ++ y := by
  intro h
  have hfirst := congrArg (List.take 1) h
  rw [List.take_append_of_le_length (by decide), List.take_append_of_le_length (by decide)] at hfirst
  exact absurd hfirst (by decide)

omit u d [NumberTables] in
theorem operationTemplate_inj {root_key root_key' : String} {name name' : Text}
    (hroot : root_key ∈ ["queryType", "mutationType"]) (hroot' : root_key' ∈ ["queryType", "mutationType"])
    (h : operationTemplate root_key name = operationTemplate root_key' name') :
    root_key = root_key' ∧ name = name' := by
  have h : root_key.toList ++ '.' :: name = root_key'.toList ++ '.' :: name' :=
    List.append_cancel_left h
  simp only [List.mem_cons, List.not_mem_nil, or_false] at hroot hroot'
  rcases hroot with rfl | rfl <;> rcases hroot' with rfl | rfl
  · rw [List.append_cancel_left_eq] at h
    exact ⟨rfl, (List.cons.inj h).2⟩
  · exact absurd h (roots_ne _ _)
  · exact absurd h.symm (roots_ne _ _)
  · rw [List.append_cancel_left_eq] at h
    exact ⟨rfl, (List.cons.inj h).2⟩

omit u d [NumberTables] in
theorem mem_joinWith {c : Char} {parts : List Text} (h : c ∈ Json.joinWith ['/'] parts) :
    c = '/' ∨ ∃ part ∈ parts, c ∈ part := by
  cases parts with
  | nil => cases h
  | cons s l =>
    rw [Url.joinWith_cons, Url.pathOf, List.mem_append, List.mem_flatMap] at h
    rcases h with hs | ⟨part, hpart, hc⟩
    · exact .inr ⟨s, List.mem_cons_self, hs⟩
    · rcases List.mem_cons.1 hc with rfl | hc
      · exact .inl rfl
      · exact .inr ⟨part, List.mem_cons_of_mem s hpart, hc⟩

omit u [NumberTables] in
theorem mem_templatize_path {c : Char} {path : Text} (h : c ∈ templatize_path path) :
    c = '/' ∨ c ∈ "\x7bid\x7d".toList ∨ c ∈ path := by
  rw [templatize_path] at h
  split at h
  · exact .inl (List.mem_singleton.1 h)
  · rcases mem_joinWith h with rfl | ⟨part, hpart, hc⟩
    · exact .inl rfl
    · obtain ⟨seg, hseg, rfl⟩ := List.mem_map.1 hpart
      split at hc
      · exact .inr (.inl hc)
      · exact .inr (.inr (Text.subset_of_mem_split hseg hc))

omit [NumberTables] in
/-- No path has the character that the templates of operations have. -/
theorem notMem_templatize_path {url : Text} {parts : Url.SplitResult} (h : Url.urlsplit url = .ok parts) :
    '#' ∉ templatize_path (if parts.path = [] then ['/'] else parts.path) := by
  have hpath : '#' ∉ parts.path := by
    simp only [Url.urlsplit, bind, Except.bind] at h
    split at h
    · cases h
    split at h
    · cases h
    obtain rfl := Except.ok.inj h
    intro hmem
    -- the fragment is cut off first
    have hbefore := (List.takeWhile_sublist _).subset hmem
    exact absurd (List.mem_takeWhile_imp hbefore) (by decide)
  intro hmem
  rcases mem_templatize_path hmem with hslash | hid | hmem
  · exact absurd hslash (by decide)
  · exact absurd hid (by decide)
  · split at hmem
    · exact absurd hmem (by decide)
    · exact hpath hmem

/-! ### What is reported -/

omit u d [NumberTables] in
/-- Where an endpoint is. -/
def site (ep : DiscoveredEndpoint) : Text × Text × Text := (ep.method, ep.url, ep.path_template)

/-- Where an operation is reported. -/
def operationSite (endpoint_url : Text) (root_key : String) (f : Field) : Text × Text × Text :=
  (u.upper "POST".toList, endpoint_url, operationTemplate root_key f.name)

omit u d [NumberTables] in
theorem operationTemplate_ne_nil (root_key : String) (name : Text) : operationTemplate root_key name ≠ [] :=
  List.append_ne_nil_of_left_ne_nil (by decide) _

omit u d [NumberTables] in
theorem mapM_graphqlParam {args : List Json} (h : ∀ a ∈ args, ∃ fields, a = .obj fields) :
    ∃ params, args.mapM graphqlParam = .ok params := by
  induction args with
  | nil => exact ⟨[], rfl⟩
  | cons a args ih =>
    obtain ⟨⟨fields, rfl⟩, hargs⟩ := List.forall_mem_cons.1 h
    obtain ⟨params, hparams⟩ := ih hargs
    have hone : ∃ param, graphqlParam (.obj fields) = .ok param := by
      show ∃ param, (if (Dict.get fields "name").truthy = true then _ else _) = _
      split <;> exact ⟨_, rfl⟩
    obtain ⟨param, hparam⟩ := hone
    exact ⟨param :: params, by rw [List.mapM_cons, hparam, hparams]; rfl⟩

omit [NumberTables] in
/-- An endpoint keeps the template it is given. -/
theorem post_init_site {ep : DiscoveredEndpoint} (htemplate : ep.path_template ≠ [])
    (hurl : Splittable ep.url) : ∃ ep', ep.post_init = .ok ep' ∧
      site ep' = (u.upper (if ep.method = [] then "GET".toList else ep.method), ep.url, ep.path_template) := by
  obtain ⟨parts, hparts⟩ := hurl
  rw [DiscoveredEndpoint.post_init]
  by_cases hversion : ep.api_version = []
  all_goals
    simp only [htemplate, hversion, hparts, if_true, if_false]
    exact ⟨_, rfl, rfl⟩

omit [NumberTables] in
/-- Every field has an endpoint. -/
theorem graphqlEndpoint_eq {endpoint_url : Text} (hurl : Splittable endpoint_url) (root_key : String)
    (f : Field) : ∃ ep, graphqlEndpoint endpoint_url root_key (.obj f.json) = .ok (some ep) ∧
      site ep = operationSite endpoint_url root_key f := by
  obtain ⟨args, hargs, hobj⟩ := f.args
  obtain ⟨params, hparams⟩ := mapM_graphqlParam hobj
  have htruthy : (Json.str f.name).truthy = true := by
    obtain ⟨c, t, ht⟩ := List.exists_cons_of_ne_nil f.ne_nil
    rw [ht]
    rfl
  rw [graphqlEndpoint]
  show ∃ ep, (if (f.json.get "name").truthy = true then _ else _ : Except Raised _) = _ ∧ _
  rw [f.named, if_pos htruthy, hargs]
  show ∃ ep, (args.mapM graphqlParam).bind _ = _ ∧ _
  rw [hparams]
  obtain ⟨ep, hep, hsite⟩ := @post_init_site _ _ {
    method := "POST".toList
    url := endpoint_url
    provenance := .GRAPHQL
    parameters := params.reduceOption
    path_template := operationTemplate root_key (Json.str f.name).toText
    request_body_schema := Dict.recipe [("operation", Json.text root_key), ("field", .str f.name)]
    auth_required := true } (operationTemplate_ne_nil root_key _) hurl
  refine ⟨ep, ?_, hsite.trans ?_⟩
  · show (DiscoveredEndpoint.post_init _).bind _ = _
    rw [hep]
    rfl
  · have hpost : "POST".toList ≠ [] := by decide
    show (u.upper (if "POST".toList = [] then _ else _), _, _) = _
    rw [if_neg hpost]
    rfl

omit [NumberTables] in
theorem mapM_graphqlEndpoint {endpoint_url : Text} (hurl : Splittable endpoint_url) (root_key : String)
    (fields : List Field) :
    ∃ eps, (fields.map fun f ↦ .obj f.json).mapM (graphqlEndpoint endpoint_url root_key) = .ok eps ∧
      eps.reduceOption.map site = fields.map (operationSite endpoint_url root_key) := by
  induction fields with
  | nil => exact ⟨[], rfl, rfl⟩
  | cons f fields ih =>
    obtain ⟨ep, hep, hsite⟩ := graphqlEndpoint_eq hurl root_key f
    obtain ⟨eps, heps, hsites⟩ := ih
    refine ⟨some ep :: eps, ?_, ?_⟩
    · rw [List.map_cons, List.mapM_cons, hep, heps]
      rfl
    · rw [List.reduceOption_cons_of_some, List.map_cons, List.map_cons, hsite, hsites]

/-- A root has an endpoint for each of its fields, in order. -/
theorem rootEndpoints_eq {schema : Dict} {type_map : List (HashKey × Dict)} {root_key : String}
    {fields : List Field} (h : HasFields schema type_map root_key fields) {endpoint_url : Text}
    (hurl : Splittable endpoint_url) :
    ∃ eps, rootEndpoints type_map schema endpoint_url root_key = .ok eps ∧
      eps.map site = fields.map (operationSite endpoint_url root_key) := by
  cases h with
  | absent h =>
    refine ⟨[], ?_, rfl⟩
    rw [rootEndpoints]
    split
    next root hroot => exact absurd hroot (h root)
    next => rfl
  | unknown root key hroot hkey htype =>
    refine ⟨[], ?_, rfl⟩
    rw [rootEndpoints, hroot]
    show (hashKey (root.get "name")).bind _ = _
    rw [hkey]
    simp only [bind, Except.bind]
    rw [htype]
    rfl
  | listed root key root_type _ hroot hkey htype hne hfields =>
    obtain ⟨eps, heps, hsites⟩ := mapM_graphqlEndpoint hurl root_key fields
    have hempty : root_type.isEmpty = false := by
      obtain ⟨e, rest, rfl⟩ := List.exists_cons_of_ne_nil hne
      rfl
    refine ⟨eps.reduceOption, ?_, hsites⟩
    rw [rootEndpoints, hroot]
    show (hashKey (root.get "name")).bind _ = _
    rw [hkey]
    simp only [bind, Except.bind]
    rw [htype]
    show (if root_type.isEmpty = true then _ else _ : Except Raised _) = _
    rw [hempty, hfields]
    simp only [Json.iter]
    rw [heps]
    rfl

omit [NumberTables] in
/-- The location of an endpoint, before it is hashed. -/
def DiscoveredEndpoint.key (ep : DiscoveredEndpoint) : Except Raised Text :=
  fingerprintKey ep.method ep.url ep.path_template

omit [NumberTables] in
theorem fingerprint_eq_map_key (ep : DiscoveredEndpoint) : ep.fingerprint = ep.key.map Sha1.hexdigest := rfl

/-- Merging what has distinct fingerprints changes nothing. -/
theorem merge_endpoints_of_distinct {eps : List DiscoveredEndpoint}
    (hfingerprint : ∀ e ∈ eps, ∃ fp, e.fingerprint = .ok fp)
    (hdistinct : eps.Pairwise fun e e' ↦ e.fingerprint ≠ e'.fingerprint) : merge_endpoints eps = .ok eps := by
  let rows : List (Text × DiscoveredEndpoint) := eps.map fun e ↦ (e.fingerprint.toOption.getD [], e)
  have hrows : ∀ e ∈ eps, e.fingerprint = .ok (e.fingerprint.toOption.getD []) := by
    intro e he
    obtain ⟨fp, hfp⟩ := hfingerprint e he
    rw [hfp]
    rfl
  have heps : rows.map Prod.snd = eps := by
    rw [List.map_map]
    exact List.map_id eps
  have hnodup : (rows.map Prod.fst).Nodup := by
    rw [List.map_map, List.Nodup, List.pairwise_map]
    refine hdistinct.imp_of_mem fun he he' hne hsame ↦ hne ?_
    rw [hrows _ he, hrows _ he']
    exact congrArg Except.ok hsame
  have hfold := @foldlM_of_distinct _ _ _ rows [] (fun e he ↦ by
    obtain ⟨ep, hep, rfl⟩ := List.mem_map.1 he
    exact hrows ep hep) (by rwa [List.nil_append])
  rw [heps, List.nil_append] at hfold
  rw [merge_endpoints_eq, hfold]
  exact congrArg Except.ok heps

omit u d [NumberTables] in
/-- The templates of the operations, in order. -/
def operationTemplates (queries mutations : List Field) : List Text :=
  queries.map (operationTemplate "queryType" ·.name) ++ mutations.map (operationTemplate "mutationType" ·.name)

omit u d [NumberTables] in
theorem nodup_operationTemplates {queries mutations : List Field} (hqueries : (queries.map Field.name).Nodup)
    (hmutations : (mutations.map Field.name).Nodup) : (operationTemplates queries mutations).Nodup := by
  have hroot : ∀ {root_key : String} {fields : List Field}, root_key ∈ ["queryType", "mutationType"] →
      (fields.map Field.name).Nodup → (fields.map (operationTemplate root_key ·.name)).Nodup := by
    intro root_key fields hkey h
    rw [List.Nodup, List.pairwise_map] at h ⊢
    exact h.imp fun hne hsame ↦ hne (operationTemplate_inj hkey hkey hsame).2
  refine List.nodup_append.2 ⟨hroot (by decide) hqueries, hroot (by decide) hmutations, ?_⟩
  intro t ht t' ht' hsame
  obtain ⟨f, -, rfl⟩ := List.mem_map.1 ht
  obtain ⟨f', -, rfl⟩ := List.mem_map.1 ht'
  exact absurd (operationTemplate_inj (by decide) (by decide) hsame).1 (by decide)

/-- All operations are reported, queries first. -/
theorem parse_graphql_sites [DocumentLibrary] {content : Content} {queries mutations : List Field}
    (hdoc : GraphqlDocument content queries mutations) {endpoint_url : Text} (hurl : Splittable endpoint_url) :
    ∃ res, parse_graphql_introspection content endpoint_url = .ok res ∧ res.endpoints.map site =
      (operationTemplates queries mutations).map fun t ↦ (u.upper "POST".toList, endpoint_url, t) := by
  obtain ⟨doc, schema, type_map, hload, hschema, htypes, hqueries, hmutations⟩ := hdoc.reads
  obtain ⟨eps, heps, hsites⟩ := rootEndpoints_eq hqueries hurl
  obtain ⟨eps', heps', hsites'⟩ := rootEndpoints_eq hmutations hurl
  refine ⟨{ endpoints := eps ++ eps' }, ?_, ?_⟩
  · rw [parse_graphql_introspection, hload]
    simp only [hschema, bind, Except.bind, htypes, heps, heps']
    rfl
  · rw [List.map_append, hsites, hsites', operationTemplates, List.map_append, List.map_map, List.map_map]
    rfl

/-- **The operations of a service** are reported in order, and no two share a location; nor does one share
its location with what is reported at the URL itself. So merging keeps them all, unless digests of different
locations collide. -/
theorem parse_graphql_distinct [DocumentLibrary] {content : Content} {queries mutations : List Field}
    (hdoc : GraphqlDocument content queries mutations) {endpoint_url : Text} (hurl : Locatable endpoint_url)
    (hqueries : (queries.map Field.name).Nodup) (hmutations : (mutations.map Field.name).Nodup) :
    ∃ res, parse_graphql_introspection content endpoint_url = .ok res ∧
      res.endpoints.map (·.path_template) = operationTemplates queries mutations ∧
      (res.endpoints.map DiscoveredEndpoint.key).Nodup ∧
      fingerprintKey (u.upper "POST".toList) endpoint_url [] ∉ res.endpoints.map DiscoveredEndpoint.key ∧
      ((∀ e ∈ res.endpoints, ∀ e' ∈ res.endpoints, e.fingerprint = e'.fingerprint → e.key = e'.key) →
        merge_endpoints res.endpoints = .ok res.endpoints) := by
  obtain ⟨parts, port, hparts, hport⟩ := hurl
  obtain ⟨res, hres, hsites⟩ := parse_graphql_sites hdoc ⟨parts, hparts⟩
  have hkey := fingerprintKey_eq hparts hport (u.upper "POST".toList)
  have htemplates : res.endpoints.map (·.path_template) = operationTemplates queries mutations := by
    have h := congrArg (List.map fun s ↦ s.2.2) hsites
    rw [List.map_map, List.map_map] at h
    exact h.trans (List.map_id _)
  have hkeys : res.endpoints.map DiscoveredEndpoint.key = (operationTemplates queries mutations).map fun t ↦
      fingerprintKey (u.upper "POST".toList) endpoint_url t := by
    have h := congrArg (List.map fun s ↦ fingerprintKey s.1 s.2.1 s.2.2) hsites
    rw [List.map_map, List.map_map] at h
    exact h
  have htemplate : ∀ t ∈ operationTemplates queries mutations, '#' ∈ t ∧ t ≠ [] := by
    intro t ht
    rw [operationTemplates, List.mem_append, List.mem_map, List.mem_map] at ht
    rcases ht with ⟨f, -, rfl⟩ | ⟨f, -, rfl⟩
    · exact ⟨List.mem_append_left _ (by decide), operationTemplate_ne_nil _ _⟩
    · exact ⟨List.mem_append_left _ (by decide), operationTemplate_ne_nil _ _⟩
  have hnodup : (res.endpoints.map DiscoveredEndpoint.key).Nodup := by
    rw [hkeys, List.Nodup, List.pairwise_map]
    refine (nodup_operationTemplates hqueries hmutations).imp_of_mem fun ht ht' hne hsame ↦ hne ?_
    rw [hkey, hkey, if_pos (htemplate _ ht).2, if_pos (htemplate _ ht').2] at hsame
    exact List.append_cancel_left (Except.ok.inj hsame)
  refine ⟨res, hres, htemplates, hnodup, ?_, fun hcollision ↦ ?_⟩
  · rw [hkeys, List.mem_map]
    rintro ⟨t, ht, hsame⟩
    rw [hkey, hkey, if_pos (htemplate t ht).2, if_neg (not_not.2 rfl)] at hsame
    -- the template of the URL has no such character
    have ht' := List.append_cancel_left (Except.ok.inj hsame)
    exact notMem_templatize_path hparts (ht' ▸ (htemplate t ht).1)
  · refine merge_endpoints_of_distinct (fun e he ↦ ?_) ?_
    · have hmem : e.key ∈ res.endpoints.map DiscoveredEndpoint.key := List.mem_map_of_mem he
      rw [hkeys, List.mem_map] at hmem
      obtain ⟨t, -, ht⟩ := hmem
      rw [fingerprint_eq_map_key, ← ht, hkey]
      exact ⟨_, rfl⟩
    · rw [List.Nodup, List.pairwise_map] at hnodup
      exact hnodup.imp_of_mem fun he he' hne hsame ↦ hne (hcollision _ he _ he' hsame)

end

section

attribute [local instance] asciiTables asciiDigits plainNumbers jsonOnly

/-- A field without arguments. -/
def plainField (name : String) (h : name.toList ≠ []) : Field where
  name := name.toList
  json := Dict.recipe [("name", Json.text name), ("args", .arr [])]
  ne_nil := h
  named := by
    rw [Dict.get_eq_getD, Dict.getD_recipe_cons, if_pos rfl]
    rfl
  args := by
    refine ⟨[], ?_, fun a ha ↦ absurd ha List.not_mem_nil⟩
    rw [Dict.getD_recipe_cons, if_neg (by decide), Dict.getD_recipe_cons, if_pos rfl]

/-- An object type with these fields. -/
def objectType (name : String) (fields : List Field) : Dict :=
  Dict.recipe [("name", Json.text name), ("fields", .arr (fields.map fun f ↦ .obj f.json))]

def sampleQueries : List Field := [plainField "user" (by decide), plainField "orders" (by decide)]

/-- A mutation with the name of a query. -/
def sampleMutations : List Field := [plainField "user" (by decide)]

def sampleSchema : Dict := Dict.recipe [
  ("queryType", .obj (Dict.recipe [("name", Json.text "Query")])),
  ("mutationType", .obj (Dict.recipe [("name", Json.text "Mutation")])),
  ("types", .arr [.obj (objectType "Query" sampleQueries), .obj (objectType "Mutation" sampleMutations)])]

theorem sampleSchema_document : GraphqlDocument (.document (.obj (Dict.recipe [("__schema", .obj sampleSchema)])))
    sampleQueries sampleMutations where
  reads := ⟨_, sampleSchema, [(.str "Query".toList, objectType "Query" sampleQueries),
    (.str "Mutation".toList, objectType "Mutation" sampleMutations)], rfl, rfl, rfl,
    .listed (Dict.recipe [("name", Json.text "Query")]) (.str "Query".toList) (objectType "Query" sampleQueries)
      sampleQueries rfl rfl rfl (List.cons_ne_nil _ _) rfl,
    .listed (Dict.recipe [("name", Json.text "Mutation")]) (.str "Mutation".toList)
      (objectType "Mutation" sampleMutations) sampleMutations rfl rfl rfl (List.cons_ne_nil _ _) rfl⟩

theorem sampleSchema_distinct : ∃ res,
    parse_graphql_introspection (.document (.obj (Dict.recipe [("__schema", .obj sampleSchema)])))
      "https://app.example/graphql".toList = .ok res ∧
    res.endpoints.map (·.path_template) = ["/graphql#queryType.user".toList, "/graphql#queryType.orders".toList,
      "/graphql#mutationType.user".toList] ∧
    (res.endpoints.map DiscoveredEndpoint.key).Nodup := by
  obtain ⟨res, hres, htemplates, hkeys, -⟩ := @parse_graphql_distinct asciiTables asciiDigits plainNumbers
    jsonOnly _ _ _ sampleSchema_document "https://app.example/graphql".toList ⟨_, _, rfl, rfl⟩ (by decide)
    (by decide)
  exact ⟨res, hres, htemplates.trans (by decide), hkeys⟩

end

end Discovery

end Sentrik
