import Sentrik.Discovery.Crawler
import Sentrik.Discovery.Har
import Sentrik.Library.UrlAssembly

/-!
# OpenAPI documents

A document is read path by path and method by method, and each operation has an endpoint at each server. Nothing
here catches an exception: a part of the wrong shape ends the reading of the whole document.

The URL of an endpoint is the path *resolved* against the server, not put behind it, so a path may lead elsewhere:
one with a colon in its first segment is taken for a URL with a scheme of its own. `parse_openapi_complete_iff` says
for which documents the endpoints are the operations at the servers.
-/

namespace Sentrik

namespace Discovery

section

variable [u : UnicodeTables]

/-! ### Servers -/

/-- `HTTP_METHODS` -/
def HTTP_METHODS : List Text := [
  "get".toList, "put".toList, "post".toList, "delete".toList, "options".toList, "head".toList,
  "patch".toList, "trace".toList]

/-- `value[0]`, for a value that is true in a condition. -/
def firstItem : Json → Except Raised Json
  | .arr (item :: _) => .ok item
  | .str (c :: _) => .ok (.str [c])
  | .arr [] | .str [] | .obj _ => .error .KeyError
  | _ => .error .TypeError

omit u in
/-- The URL of a server, nothing for one without it. -/
def serverUrl (base_url : Text) : Json → Except Raised (Option Text)
  | .obj s => do
    if (Dict.get s "url").truthy then
      let url ← (Dict.get s "url").asText
      return some (if Text.startswith url ['/'] ∧ base_url ≠ [] then rstripSlash base_url ++ url else url)
    else return none
  | _ => .ok none

omit u in
/-- The URLs of the servers of a document. -/
def listedServers (doc : Dict) (base_url : Text) : Except Raised (List Text) :=
  match doc.get "servers" with
  | .arr items => (items.mapM (serverUrl base_url)).map List.reduceOption
  | _ => .ok []

/-- `_openapi_servers` -/
def _openapi_servers (doc : Dict) (base_url : Text) : Except Raised (List Text) := do
  let servers ← listedServers doc base_url
  if servers ≠ [] then return servers
  -- an older document names its host
  let host := doc.get "host"
  if host.truthy then
    let scheme ← firstItem ((doc.get "schemes").or (.arr [Json.text "https"]))
    return [scheme.toText ++ "://".toList ++ host.toText ++ (doc.getD "basePath" (Json.text "")).toText]
  return [if base_url = [] then "http://localhost".toList else base_url]

def _openapi_version_tag (doc : Dict) : Text :=
  match doc.getD "info" (.obj []) with
  | .obj info => if (Dict.get info "version").truthy then (Dict.get info "version").toText else []
  | _ => []

/-! ### Operations -/

omit u in
/-- What is kept of a parameter: one that is a dictionary and has a name. -/
def openapiParam : Json → Option Dict
  | .obj p =>
    if (Dict.getD p "name" (Json.text "")).truthy then
      let type := match Dict.get p "schema" with
        | .obj schema => Dict.get schema "type"
        | _ => .null
      some (Dict.recipe [("name", Dict.getD p "name" (Json.text "")),
        ("in", Dict.getD p "in" (Json.text "query")),
        ("type", type.or ((Dict.get p "type").or (Json.text "string"))),
        ("required", .bool (Dict.getD p "required" (.bool false)).truthy)])
    else none
  | _ => none

omit u in
/-- The first media type with a schema. -/
def mediaSchema : Text × Json → Option Dict
  | (ctype, .obj media) =>
    (Dict.get? media "schema".toList).map fun schema ↦
      Dict.recipe [("content_type", .str ctype), ("schema", schema)]
  | _ => none

omit u in
def _openapi_request_body (op : Dict) : Except Raised Dict :=
  match op.get "requestBody" with
  | .obj rb => do
    let content ← (Dict.getD rb "content" (.obj [])).asDict
    return (content.findSome? mediaSchema).getD []
  | _ => .ok []

/-- The scopes of a security requirement. -/
def scopesOf : Json → List Text
  | .obj sec => sec.flatMap fun e ↦
    match e.2 with
    | .arr scopes => scopes.map Json.toText
    | _ => []
  | _ => []

def _openapi_scopes (op : Dict) : Except Raised (List Text) := do
  let secs ← ((op.getD "security" (.arr [])).or (.arr [])).iter
  return Text.sortedSet (secs.flatMap scopesOf)

omit u in
/-- `shared_params + op.get("parameters", [])` -/
def operationParams (shared_params : List Json) (op : Dict) : Except Raised (List Json) :=
  match op.getD "parameters" (.arr []) with
  | .arr own => .ok (shared_params ++ own)
  | _ => .error .TypeError

omit u in
/-- `lstrip("/")` -/
def lstripSlash (t : Text) : Text := t.dropWhile (· == '/')

variable [d : DigitTables]

/-- The endpoint of an operation at a server. -/
def openapiEndpoint (ep : DiscoveredEndpoint) (raw_path server : Text) : Except Raised DiscoveredEndpoint := do
  let url ← joined (rstripSlash server ++ ['/']) (lstripSlash raw_path)
  DiscoveredEndpoint.post_init { ep with url }

/-- The endpoints of an operation. -/
def operationEndpoints (doc : Dict) (servers : List Text) (shared_params : List Json) (raw_path method : Text)
    (op : Dict) : Except Raised (List DiscoveredEndpoint) := do
  let params ← operationParams shared_params op
  let body ← _openapi_request_body op
  let roles ← _openapi_scopes op
  servers.mapM (openapiEndpoint {
    method
    url := []
    provenance := .OPENAPI
    parameters := params.filterMap openapiParam
    request_body_schema := body
    auth_required := (op.getD "security" (doc.get "security")).truthy
    roles
    api_version := _openapi_version_tag doc } raw_path)

/-- The endpoints of an entry of a path item, none for one that is no operation. -/
def entryEndpoints (doc : Dict) (servers : List Text) (shared_params : List Json) (raw_path : Text) :
    Text × Json → Except Raised (List DiscoveredEndpoint)
  | (method, .obj op) =>
    if u.lower method ∈ HTTP_METHODS then operationEndpoints doc servers shared_params raw_path method op
    else .ok []
  | _ => .ok []

/-- The endpoints of a path. -/
def pathEndpoints (doc : Dict) (servers : List Text) : Text × Json → Except Raised (List DiscoveredEndpoint)
  | (raw_path, .obj item) => do
    let shared_params := match Dict.get item "parameters" with
      | .arr shared => shared
      | _ => []
    let endpoints ← item.mapM (entryEndpoints doc servers shared_params raw_path)
    return endpoints.flatten
  | _ => .ok []

omit d in
/-- What is said of a path that is no object. -/
def pathWarning : Text × Json → Option Warning
  | (_, .obj _) => none
  | (raw_path, _) => some (.text ("path ".toList ++ (Text.repr raw_path).toList ++ " is not an object; skipped".toList))

/-- Read a document. -/
def parse_openapi [DocumentLibrary] (content : Content) (base_url : Text) : Except Raised ParseResult :=
  match _load content with
  | .error err => .ok { warnings := [.text err] }
  | .ok (.obj doc) => do
    let servers ← _openapi_servers doc base_url
    match Dict.get doc "paths" with
    | .obj paths => do
      let endpoints ← paths.mapM (pathEndpoints doc servers)
      return { endpoints := endpoints.flatten, warnings := paths.filterMap pathWarning }
    | _ => return .warn "no 'paths' object found"
  | .ok _ => .ok (.warn "OpenAPI root is not an object")

/-! ### The operations of a document -/

/-- An operation: the key of its path, the key of its method, and the object there. -/
structure Operation where
  path : Text
  method : Text
  op : Dict

/-- An entry of a path item that is an object under an HTTP method. -/
def entryOperation (path : Text) : Text × Json → Option Operation
  | (method, .obj op) => if u.lower method ∈ HTTP_METHODS then some { path, method, op } else none
  | _ => none

def pathOperations : Text × Json → List Operation
  | (path, .obj item) => item.filterMap (entryOperation path)
  | _ => []

def operations (paths : Dict) : List Operation := paths.flatMap pathOperations

/-- Each operation at each server. -/
def placements (servers : List Text) (paths : Dict) : List (Operation × Text) :=
  (operations paths).flatMap fun o ↦ servers.map fun s ↦ (o, s)

/-- The operations at the servers, each as its method in upper case and the path behind the server. -/
def specified (servers : List Text) (paths : Dict) : List (Text × Text) :=
  (operations paths).flatMap fun o ↦ servers.map fun s ↦ (u.upper o.method, rstripSlash s ++ o.path)

/-- The lists and objects of an operation are lists and objects. -/
structure WellFormedOperation (op : Dict) : Prop where
  parameters : ∃ own, op.getD "parameters" (.arr []) = .arr own
  body : ∀ rb : Dict, op.get "requestBody" = .obj rb → ∃ content, rb.getD "content" (.obj []) = .obj content
  security : ∃ secs, op.getD "security" (.arr []) = .arr secs

/-- The servers of a document: those it lists, else the host of an older one, else the given one. -/
inductive HasServers (doc : Dict) (base_url : Text) : List Text → Prop
  | listed (items : List Dict) (urls : List Text) (hservers : doc.get "servers" = .arr (items.map .obj))
      (hurls : List.Forall₂ (fun (item : Dict) url ↦ item.get "url" = .str url ∧ url ≠ []) items urls)
      (hne : urls ≠ []) :
      HasServers doc base_url (urls.map fun url ↦
        if Text.startswith url ['/'] ∧ base_url ≠ [] then rstripSlash base_url ++ url else url)
  | host (host basePath scheme : Text) (hnone : doc.get "servers" = .null ∨ doc.get "servers" = .arr [])
      (hhost : doc.get "host" = .str host) (hne : host ≠ [])
      (hscheme : (doc.get "schemes" = .null ∧ scheme = "https".toList) ∨
        ∃ more, doc.get "schemes" = .arr (.str scheme :: more))
      (hbase : doc.getD "basePath" (Json.text "") = .str basePath) :
      HasServers doc base_url [scheme ++ "://".toList ++ host ++ basePath]
  | given (hnone : doc.get "servers" = .null ∨ doc.get "servers" = .arr []) (hhost : doc.get "host" = .null) :
      HasServers doc base_url [if base_url = [] then "http://localhost".toList else base_url]

/-- A document with these servers and paths, whose operations are well formed. -/
structure OpenApiDocument [DocumentLibrary] (content : Content) (base_url : Text) (servers : List Text)
    (paths : Dict) : Prop where
  loads : ∃ doc : Dict, _load content = .ok (.obj doc) ∧ HasServers doc base_url servers ∧
    doc.get "paths" = .obj paths
  operations : ∀ o ∈ operations paths, WellFormedOperation o.op

/-- A URL with the scheme `http` or `https` and a network location. -/
def AbsoluteHttp (server : Text) : Prop :=
  ∃ parts, Url.urlsplit server = .ok parts ∧ (parts.scheme = "http".toList ∨ parts.scheme = "https".toList) ∧
    parts.netloc ≠ []

/-- The path has one slash in front, and resolving what follows it against the server puts it behind it. -/
def LocatedAt (server path : Text) : Prop :=
  path = '/' :: lstripSlash path ∧ Url.Located (rstripSlash server ++ ['/']) (lstripSlash path)

/-! ### Reading a well-formed document -/

omit u d in
/-- The URLs of servers that have one. -/
theorem mapM_serverUrl {base_url : Text} {items : List Dict} {urls : List Text}
    (h : List.Forall₂ (fun (item : Dict) url ↦ item.get "url" = .str url ∧ url ≠ []) items urls) :
    (items.map Json.obj).mapM (serverUrl base_url) = .ok (urls.map fun url ↦
      some (if Text.startswith url ['/'] ∧ base_url ≠ [] then rstripSlash base_url ++ url else url)) := by
  rw [mapM_eq_ok_iff, List.map_map, List.map_map]
  induction h with
  | nil => rfl
  | @cons item url items urls hone hrest ih =>
    obtain ⟨hurl, hne⟩ := hone
    have htruthy : (Json.str url).truthy = true := by
      obtain ⟨c, t, rfl⟩ := List.exists_cons_of_ne_nil hne
      rfl
    rw [List.map_cons, List.map_cons, ih]
    refine congrArg (· :: _) ?_
    show (if (item.get "url").truthy = true then _ else _) = _
    rw [hurl, if_pos htruthy]
    rfl

omit u d in
theorem listedServers_of_none {doc : Dict} (h : doc.get "servers" = .null ∨ doc.get "servers" = .arr [])
    (base_url : Text) : listedServers doc base_url = .ok [] := by
  rw [listedServers]
  rcases h with hnone | hnone
  · rw [hnone]
  · rw [hnone]
    rfl

omit d in
/-- **The servers** that are read are those of the document. -/
theorem servers_of_document {doc : Dict} {base_url : Text} {servers : List Text}
    (h : HasServers doc base_url servers) : _openapi_servers doc base_url = .ok servers := by
  cases h with
  | listed items urls hservers hurls hne =>
    have hread : listedServers doc base_url = .ok (urls.map fun url ↦
        if Text.startswith url ['/'] ∧ base_url ≠ [] then rstripSlash base_url ++ url else url) := by
      rw [listedServers, hservers]
      dsimp only
      rw [mapM_serverUrl hurls]
      show Except.ok (List.filterMap id _) = _
      rw [List.filterMap_map]
      exact congrArg Except.ok (congrFun List.filterMap_eq_map urls)
    rw [_openapi_servers, hread]
    exact if_pos fun hnil ↦ hne (List.map_eq_nil_iff.1 hnil)
  | host host basePath scheme hnone hhost hne hscheme hbase =>
    have htruthy : (Json.str host).truthy = true := by
      obtain ⟨c, t, rfl⟩ := List.exists_cons_of_ne_nil hne
      rfl
    have hfirst : firstItem ((doc.get "schemes").or (.arr [Json.text "https"])) = .ok (.str scheme) := by
      rcases hscheme with ⟨hnull, rfl⟩ | ⟨more, hlist⟩
      · rw [hnull]
        rfl
      · rw [hlist]
        rfl
    rw [_openapi_servers, listedServers_of_none hnone, hhost, hbase, hfirst]
    show (if (Json.str host).truthy = true then _ else _) = _
    rw [if_pos htruthy]
    rfl
  | given hnone hhost =>
    rw [_openapi_servers, listedServers_of_none hnone, hhost]
    rfl

/-- Where the path leads at the server. -/
def resolved (server path : Text) : Except Raised Text :=
  joined (rstripSlash server ++ ['/']) (lstripSlash path)

/-- The method and the URL of an endpoint. -/
def placed (ep : DiscoveredEndpoint) : Text × Text := (ep.method, ep.url)

omit d in
theorem ne_nil_of_method [laws : LawfulAsciiLower] {method : Text} (h : u.lower method ∈ HTTP_METHODS) :
    method ≠ [] := by
  rintro rfl
  have hnil : u.lower [] = [] := laws.lower_ascii fun c hc ↦ absurd hc List.not_mem_nil
  rw [hnil] at h
  exact absurd h (by decide)

omit u d in
/-- What a loop reports, from what each of its steps reports. -/
theorem map_of_mapM {ε α β γ : Type} {f : α → Except ε β} {key : β → γ} {spec : α → γ} {l : List α}
    (h : ∀ a ∈ l, ∀ b, f a = .ok b → key b = spec a) {ys : List β} (hys : l.mapM f = .ok ys) :
    ys.map key = l.map spec := by
  induction l generalizing ys with
  | nil =>
    obtain rfl := Except.ok.inj hys
    rfl
  | cons a l ih =>
    rw [mapM_eq_ok_iff, List.map_cons] at hys
    cases ys with
    | nil => cases hys
    | cons y ys =>
      obtain ⟨hy, hrest⟩ := List.cons.inj hys
      obtain ⟨ha, hl⟩ := List.forall_mem_cons.1 h
      rw [List.map_cons, List.map_cons, ha y hy, ih hl (mapM_eq_ok_iff.2 hrest)]

omit u d in
/-- What a loop that puts lists together reports. -/
theorem map_flatten_of_mapM {ε α β γ : Type} {f : α → Except ε (List β)} {key : β → γ} {spec : α → List γ}
    {l : List α} (h : ∀ a ∈ l, ∀ y, f a = .ok y → y.map key = spec a) {ys : List (List β)}
    (hys : l.mapM f = .ok ys) : ys.flatten.map key = l.flatMap spec := by
  rw [List.map_flatten, map_of_mapM h hys, List.flatMap_def]

/-- What a built endpoint says of where it is. -/
theorem post_init_placed {ep ep' : DiscoveredEndpoint} (h : ep.post_init = .ok ep') (hmethod : ep.method ≠ []) :
    placed ep' = (u.upper ep.method, ep.url) := by
  have hname : (if ep.method = [] then "GET".toList else ep.method) = ep.method := if_neg hmethod
  rw [DiscoveredEndpoint.post_init, hname] at h
  by_cases htemplate : ep.path_template = [] <;> by_cases hversion : ep.api_version = [] <;>
    cases hparts : Url.urlsplit ep.url
  all_goals
    simp only [htemplate, hversion, hparts, if_true, if_false] at h
    cases h
  all_goals rfl

/-- An endpoint says where its path leads. -/
theorem openapiEndpoint_placed {ep ep' : DiscoveredEndpoint} {path server : Text} (hmethod : ep.method ≠ [])
    (h : openapiEndpoint ep path server = .ok ep') :
    ∃ url, resolved server path = .ok url ∧ placed ep' = (u.upper ep.method, url) := by
  rw [openapiEndpoint] at h
  obtain ⟨url, hurl, h⟩ := exists_of_bind_eq_ok h
  have hbuilt : ({ ep with url } : DiscoveredEndpoint).post_init = .ok ep' := h
  exact ⟨url, hurl, post_init_placed hbuilt hmethod⟩

theorem openapiEndpoint_returns {ep : DiscoveredEndpoint} {path server url : Text}
    (hurl : resolved server path = .ok url) (hsplit : Splittable url) :
    ∃ ep', openapiEndpoint ep path server = .ok ep' := by
  have hsplit' : Splittable ({ ep with url } : DiscoveredEndpoint).url := hsplit
  obtain ⟨ep', hep', -⟩ := post_init_returns hsplit'
  refine ⟨ep', ?_⟩
  rw [openapiEndpoint]
  show (resolved server path).bind _ = _
  rw [hurl]
  exact hep'

/-- A well-formed operation has an endpoint at each server. -/
theorem operationEndpoints_eq {op : Dict} (h : WellFormedOperation op) (doc : Dict) (servers : List Text)
    (shared_params : List Json) (path method : Text) : ∃ ep : DiscoveredEndpoint, ep.method = method ∧
      operationEndpoints doc servers shared_params path method op = servers.mapM (openapiEndpoint ep path) := by
  obtain ⟨own, hown⟩ := h.parameters
  have hparams : operationParams shared_params op = .ok (shared_params ++ own) := by
    rw [operationParams, hown]
  have hbody : ∃ body, _openapi_request_body op = .ok body := by
    rw [_openapi_request_body]
    split
    · next rb hrb =>
      obtain ⟨content, hcontent⟩ := h.body rb hrb
      rw [hcontent]
      exact ⟨_, rfl⟩
    · exact ⟨_, rfl⟩
  have hroles : ∃ roles, _openapi_scopes op = .ok roles := by
    obtain ⟨secs, hsecs⟩ := h.security
    rw [_openapi_scopes, hsecs]
    cases secs with
    | nil => exact ⟨_, rfl⟩
    | cons sec secs => exact ⟨_, rfl⟩
  obtain ⟨body, hbody⟩ := hbody
  obtain ⟨roles, hroles⟩ := hroles
  rw [operationEndpoints, hparams, hbody, hroles]
  exact ⟨_, rfl, rfl⟩

variable {doc : Dict} {servers : List Text} {paths : Dict}

/-- The methods and URLs that are reported of an operation. -/
def reported (servers : List Text) (o : Operation) : List (Text × Text) :=
  servers.map fun s ↦ (u.upper o.method, (resolved s o.path).toOption.getD [])

/-- The endpoints of an entry are its operation where its path leads. -/
theorem entryEndpoints_placed [LawfulAsciiLower] {shared : List Json} {path : Text} {e : Text × Json}
    (hformed : ∀ o ∈ entryOperation path e, WellFormedOperation o.op) {eps : List DiscoveredEndpoint}
    (h : entryEndpoints doc servers shared path e = .ok eps) :
    eps.map placed = (entryOperation path e).toList.flatMap (reported servers) := by
  obtain ⟨method, value⟩ := e
  cases value with
  | obj op =>
    rw [entryEndpoints] at h
    rw [entryOperation] at hformed ⊢
    by_cases hmethod : u.lower method ∈ HTTP_METHODS
    · rw [if_pos hmethod] at h hformed ⊢
      obtain ⟨ep, hep, heq⟩ := operationEndpoints_eq (hformed _ rfl) doc servers shared path method
      rw [heq] at h
      have hne : ep.method ≠ [] := hep ▸ ne_nil_of_method hmethod
      have hmap : eps.map placed = reported servers { path, method, op } := by
        refine map_of_mapM (fun s _ ep' hep' ↦ ?_) h
        obtain ⟨url, hurl, hplaced⟩ := openapiEndpoint_placed hne hep'
        rw [hplaced, hurl, hep]
        rfl
      rw [hmap]
      exact (List.append_nil _).symm
    · rw [if_neg hmethod] at h ⊢
      obtain rfl := Except.ok.inj h
      rfl
  | null | bool _ | num _ _ | str _ | arr _ =>
    obtain rfl := Except.ok.inj h
    rfl

theorem entryEndpoints_returns [LawfulAsciiLower] {shared : List Json} {path : Text} {e : Text × Json}
    (hformed : ∀ o ∈ entryOperation path e, WellFormedOperation o.op)
    (h : ∀ o ∈ entryOperation path e, ∀ s ∈ servers, ∃ url, resolved s o.path = .ok url ∧ Splittable url) :
    ∃ eps, entryEndpoints doc servers shared path e = .ok eps := by
  obtain ⟨method, value⟩ := e
  cases value with
  | obj op =>
    rw [entryEndpoints]
    rw [entryOperation] at hformed h
    by_cases hmethod : u.lower method ∈ HTTP_METHODS
    · rw [if_pos hmethod] at hformed h ⊢
      obtain ⟨ep, hep, heq⟩ := operationEndpoints_eq (hformed _ rfl) doc servers shared path method
      rw [heq, mapM_isOk]
      intro s hs
      obtain ⟨url, hurl, hsplit⟩ := h _ rfl s hs
      exact openapiEndpoint_returns hurl hsplit
    · rw [if_neg hmethod]
      exact ⟨[], rfl⟩
  | null | bool _ | num _ _ | str _ | arr _ => exact ⟨[], rfl⟩

omit u d in
theorem flatMap_filterMap {α β γ : Type} (f : α → Option β) (g : β → List γ) (l : List α) :
    (l.filterMap f).flatMap g = l.flatMap fun a ↦ (f a).toList.flatMap g := by
  induction l with
  | nil => rfl
  | cons a l ih =>
    rw [List.filterMap_cons, List.flatMap_cons, ← ih]
    cases f a with
    | none => rfl
    | some b =>
      show (b :: _).flatMap g = [b].flatMap g ++ _
      rw [List.flatMap_cons, List.flatMap_cons, List.flatMap_nil, List.append_nil]

omit d in
theorem entryOperation_mem {path : Text} {item : Dict} {e : Text × Json} {o : Operation} (he : e ∈ item)
    (ho : o ∈ entryOperation path e) : o ∈ pathOperations (path, .obj item) :=
  List.mem_filterMap.2 ⟨e, he, ho⟩

/-- The endpoints of a path are its operations where they lead. -/
theorem pathEndpoints_placed [LawfulAsciiLower] {p : Text × Json}
    (hformed : ∀ o ∈ pathOperations p, WellFormedOperation o.op) {eps : List DiscoveredEndpoint}
    (h : pathEndpoints doc servers p = .ok eps) : eps.map placed = (pathOperations p).flatMap (reported servers) := by
  obtain ⟨path, value⟩ := p
  cases value with
  | obj item =>
    rw [pathEndpoints] at h
    obtain ⟨lists, hlists, h⟩ := exists_of_bind_eq_ok h
    obtain rfl := Except.ok.inj h
    rw [pathOperations, flatMap_filterMap]
    exact map_flatten_of_mapM
      (fun e he eps heps ↦ entryEndpoints_placed (fun o ho ↦ hformed o (entryOperation_mem he ho)) heps) hlists
  | null | bool _ | num _ _ | str _ | arr _ =>
    obtain rfl := Except.ok.inj h
    rfl

theorem pathEndpoints_returns [LawfulAsciiLower] {p : Text × Json}
    (hformed : ∀ o ∈ pathOperations p, WellFormedOperation o.op)
    (h : ∀ o ∈ pathOperations p, ∀ s ∈ servers, ∃ url, resolved s o.path = .ok url ∧ Splittable url) :
    ∃ eps, pathEndpoints doc servers p = .ok eps := by
  obtain ⟨path, value⟩ := p
  cases value with
  | obj item =>
    rw [pathEndpoints]
    have hlists : ∀ shared, ∃ lists, item.mapM (entryEndpoints doc servers shared path) = .ok lists := fun shared ↦
      mapM_isOk.2 fun e he ↦ entryEndpoints_returns (fun o ho ↦ hformed o (entryOperation_mem he ho))
        fun o ho ↦ h o (entryOperation_mem he ho)
    obtain ⟨lists, hlists⟩ := hlists _
    rw [hlists]
    exact ⟨_, rfl⟩
  | null | bool _ | num _ _ | str _ | arr _ => exact ⟨[], rfl⟩

/-! ### Where the endpoints are -/

/-- The endpoints of a document that is read are its operations where their paths lead. -/
theorem parse_openapi_placed [LawfulAsciiLower] [DocumentLibrary] {content : Content} {base_url : Text}
    (hdoc : OpenApiDocument content base_url servers paths) {res : ParseResult}
    (h : parse_openapi content base_url = .ok res) :
    res.endpoints.map placed = (operations paths).flatMap (reported servers) := by
  obtain ⟨⟨doc, hload, hservers, hpaths⟩, hformed⟩ := hdoc
  rw [parse_openapi, hload] at h
  dsimp only at h
  rw [servers_of_document hservers, hpaths] at h
  have hread : (paths.mapM (pathEndpoints doc servers) >>= fun lists ↦
      pure { endpoints := lists.flatten, warnings := paths.filterMap pathWarning }) = .ok res := h
  obtain ⟨lists, hlists, hres⟩ := exists_of_bind_eq_ok hread
  obtain rfl := Except.ok.inj hres
  rw [operations, List.flatMap_assoc]
  exact map_flatten_of_mapM
    (fun p hp eps heps ↦ pathEndpoints_placed (fun o ho ↦ hformed o (List.mem_flatMap.2 ⟨p, hp, ho⟩)) heps) hlists

/-- A document is read where every path leads somewhere that splits. -/
theorem parse_openapi_returns [LawfulAsciiLower] [DocumentLibrary] {content : Content} {base_url : Text}
    (hdoc : OpenApiDocument content base_url servers paths)
    (h : ∀ o ∈ operations paths, ∀ s ∈ servers, ∃ url, resolved s o.path = .ok url ∧ Splittable url) :
    ∃ res, parse_openapi content base_url = .ok res := by
  obtain ⟨⟨doc, hload, hservers, hpaths⟩, hformed⟩ := hdoc
  have hlists : ∃ lists, paths.mapM (pathEndpoints doc servers) = .ok lists := mapM_isOk.2 fun p hp ↦
    pathEndpoints_returns (fun o ho ↦ hformed o (List.mem_flatMap.2 ⟨p, hp, ho⟩))
      fun o ho ↦ h o (List.mem_flatMap.2 ⟨p, hp, ho⟩)
  obtain ⟨lists, hlists⟩ := hlists
  rw [parse_openapi, hload]
  dsimp only
  rw [servers_of_document hservers, hpaths]
  show ∃ res, (paths.mapM (pathEndpoints doc servers) >>= _) = _
  rw [hlists]
  exact ⟨_, rfl⟩

omit u d in
theorem mem_placements [UnicodeTables] {o : Operation} {s : Text} :
    (o, s) ∈ placements servers paths ↔ o ∈ operations paths ∧ s ∈ servers := by
  rw [placements, List.mem_flatMap]
  constructor
  · rintro ⟨o', ho, hs⟩
    obtain ⟨s', hs', heq⟩ := List.mem_map.1 hs
    obtain ⟨rfl, rfl⟩ := Prod.mk.inj heq
    exact ⟨ho, hs'⟩
  · exact fun ⟨ho, hs⟩ ↦ ⟨o, ho, List.mem_map.2 ⟨s, hs, rfl⟩⟩

omit d in
theorem specified_eq (servers : List Text) (paths : Dict) : specified servers paths =
    (placements servers paths).map fun x ↦ (u.upper x.1.method, rstripSlash x.2 ++ x.1.path) := by
  rw [specified, placements, List.map_flatMap]
  refine congrArg (fun f ↦ (operations paths).flatMap f) (funext fun o ↦ ?_)
  rw [List.map_map]
  rfl

omit d in
theorem reported_eq (servers : List Text) (paths : Dict) : (operations paths).flatMap (reported servers) =
    (placements servers paths).map fun x ↦ (u.upper x.1.method, (resolved x.2 x.1.path).toOption.getD []) := by
  rw [placements, List.map_flatMap]
  refine congrArg (fun f ↦ (operations paths).flatMap f) (funext fun o ↦ ?_)
  rw [List.map_map]
  rfl

omit u d in
theorem rstripSlash_append (t : Text) : ∃ slashes, (∀ c ∈ slashes, c = '/') ∧ t = rstripSlash t ++ slashes := by
  refine ⟨(t.reverse.takeWhile (· == '/')).reverse, fun c hc ↦ ?_, ?_⟩
  · have hslash := List.all_eq_true.1 List.all_takeWhile c (List.mem_reverse.1 hc)
    exact beq_iff_eq.1 hslash
  · rw [rstripSlash, ← List.reverse_append, List.takeWhile_append_dropWhile, List.reverse_reverse]

omit d in
/-- The base of a server is an absolute URL too. -/
theorem base_of_absolute {server : Text} (h : AbsoluteHttp server) :
    ∃ b, Url.urlparse (rstripSlash server ++ ['/']) [] = .ok b ∧ Url.IsBase b := by
  obtain ⟨parts, hparts, hscheme, hnetloc⟩ := h
  obtain ⟨slashes, hslashes, hserver⟩ := rstripSlash_append server
  rw [hserver] at hparts
  obtain ⟨parts', hparts', hscheme', hnetloc'⟩ := Url.urlsplit_of_start hparts hnetloc hslashes (.inr ⟨[], rfl⟩)
  obtain ⟨b, hb⟩ := (Url.urlparse_returns_iff _ []).2 ⟨parts', hparts'⟩
  refine ⟨b, hb, ?_⟩
  obtain ⟨parts'', hparts'', hbScheme, hbNetloc, -⟩ := Url.urlparse_eq_ok hb
  obtain rfl := Except.ok.inj (hparts'.symm.trans hparts'')
  have hname : b.scheme = "http".toList ∨ b.scheme = "https".toList := by
    rw [hbScheme, hscheme']
    rcases hscheme with hhttp | hhttps
    · rw [hhttp]
      exact .inl (by decide)
    · rw [hhttps]
      exact .inr (by decide)
  rcases hname with hname | hname
  all_goals exact {
    relative := by rw [hname]; decide
    located := by rw [hname]; decide
    scheme_ne_nil := by rw [hname]; decide
    netloc_ne_nil := by rw [hbNetloc, hnetloc']; exact hnetloc }

omit d in
/-- What follows the base splits as the base does. -/
theorem splittable_of_base {base : Text} {b : Url.ParseResult} (hb : Url.urlparse (base ++ ['/']) [] = .ok b)
    (h : Url.IsBase b) (ref : Text) : Splittable (base ++ ['/'] ++ ref) := by
  obtain ⟨parts, hparts, -, hnetloc, -⟩ := Url.urlparse_eq_ok hb
  have hslash : ∀ c ∈ ['/'], c = '/' := fun c hc ↦ List.mem_singleton.1 hc
  obtain ⟨parts', hparts', -⟩ :=
    Url.urlsplit_of_start hparts (hnetloc ▸ h.netloc_ne_nil) hslash
      (show Url.Continues ('/' :: ref) from .inr ⟨ref, rfl⟩)
  rw [List.append_assoc]
  exact ⟨parts', hparts'⟩

omit d in
theorem resolved_eq_ok_iff {server path url : Text} : resolved server path = .ok url ↔
    Url.urljoin (rstripSlash server ++ ['/']) (lstripSlash path) = .ok url := by
  rw [resolved, joined]
  cases Url.urljoin (rstripSlash server ++ ['/']) (lstripSlash path) with
  | error exc => exact iff_of_false (fun h ↦ by cases h) fun h ↦ by cases h
  | ok out => exact ⟨fun h ↦ congrArg Except.ok (Except.ok.inj h), fun h ↦ congrArg Except.ok (Except.ok.inj h)⟩

omit u d in
theorem lstripSlash_below {path : Text} (h : ∃ t, path = '/' :: t) :
    Text.Below ('/' :: lstripSlash path) path := by
  obtain ⟨t, rfl⟩ := h
  have hstrip : lstripSlash ('/' :: t) = t.dropWhile (· == '/') := List.dropWhile_cons_of_pos (by decide)
  rw [hstrip]
  exact (Text.below_of_sublist (List.dropWhile_sublist _)).cons '/'

omit d in
/-- Resolving never adds to the server and the path. -/
theorem resolved_below [LawfulAsciiLower] {server path url : Text} (h : AbsoluteHttp server)
    (hpath : ∃ t, path = '/' :: t) (hurl : resolved server path = .ok url) :
    Text.Below url (rstripSlash server ++ path) := by
  obtain ⟨b, hb, hbase⟩ := base_of_absolute h
  have hjoin := Url.urljoin_below hb hbase ⟨_, rfl⟩ (resolved_eq_ok_iff.1 hurl)
  have hwhole := (Text.Below.refl (rstripSlash server)).append (lstripSlash_below hpath)
  rw [List.append_assoc] at hjoin
  exact hjoin.trans hwhole

omit d in
/-- **A path is put behind the server** exactly where it is located there. -/
theorem resolved_eq_append_iff [LawfulAsciiLower] {server path : Text} (h : AbsoluteHttp server)
    (hpath : ∃ t, path = '/' :: t) :
    resolved server path = .ok (rstripSlash server ++ path) ↔ LocatedAt server path := by
  obtain ⟨b, hb, hbase⟩ := base_of_absolute h
  have hiff : Url.urljoin (rstripSlash server ++ ['/']) (lstripSlash path) =
      .ok (rstripSlash server ++ ['/'] ++ lstripSlash path) ↔ _ := Url.urljoin_eq_append_iff hb hbase ⟨_, rfl⟩
  have hsame : rstripSlash server ++ ['/'] ++ lstripSlash path = rstripSlash server ++ '/' :: lstripSlash path := by
    rw [List.append_assoc]
    rfl
  rw [resolved_eq_ok_iff, LocatedAt, ← hiff, hsame]
  constructor
  · intro hjoin
    have hbelow := Url.urljoin_below hb hbase ⟨_, rfl⟩ hjoin
    obtain ⟨hle, heq⟩ := lstripSlash_below hpath
    have hone : path = '/' :: lstripSlash path := by
      have hweight := hbelow.1
      rw [hsame, Text.weight_append, Text.weight_append] at hweight
      exact (heq (by omega)).symm
    refine ⟨hone, ?_⟩
    rw [← hone]
    exact hjoin
  · rintro ⟨hone, hjoin⟩
    exact hjoin.trans (by rw [← hone])

omit d in
/-- An operation has the key of its path. -/
theorem path_of_operation {o : Operation} (h : o ∈ operations paths) : ∃ p ∈ paths, o.path = p.1 := by
  obtain ⟨⟨path, value⟩, hp, ho⟩ := List.mem_flatMap.1 h
  refine ⟨_, hp, ?_⟩
  cases value with
  | obj item =>
    obtain ⟨⟨method, value⟩, -, he⟩ := List.mem_filterMap.1 ho
    cases value with
    | obj op =>
      rw [entryOperation] at he
      split at he
      · rw [← Option.some.inj he]
      · cases he
    | null | bool _ | num _ _ | str _ | arr _ => cases he
  | null | bool _ | num _ _ | str _ | arr _ => cases ho

/-- **The endpoints of a document** are its operations at its servers exactly where every path is located at every
server. -/
theorem parse_openapi_complete_iff [LawfulAsciiLower] [DocumentLibrary] {content : Content} {base_url : Text}
    (hdoc : OpenApiDocument content base_url servers paths) (habsolute : ∀ s ∈ servers, AbsoluteHttp s)
    (hkeys : ∀ p ∈ paths, ∃ t, p.1 = '/' :: t) :
    (∃ res, parse_openapi content base_url = .ok res ∧
        (res.endpoints.map placed).Perm (specified servers paths)) ↔
      ∀ o ∈ operations paths, ∀ s ∈ servers, LocatedAt s o.path := by
  have hslash : ∀ o ∈ operations paths, ∃ t, o.path = '/' :: t := by
    intro o ho
    obtain ⟨p, hp, hpath⟩ := path_of_operation ho
    rw [hpath]
    exact hkeys p hp
  constructor
  · rintro ⟨res, hres, hperm⟩ o ho s hs
    rw [parse_openapi_placed hdoc hres, reported_eq, specified_eq] at hperm
    have hbelow : ∀ x ∈ placements servers paths,
        Text.Below ((resolved x.2 x.1.path).toOption.getD []) (rstripSlash x.2 ++ x.1.path) := by
      intro x hx
      obtain ⟨ho, hs⟩ := mem_placements.1 hx
      cases hurl : resolved x.2 x.1.path with
      | error exc => exact Text.below_of_sublist (List.nil_sublist _)
      | ok url => exact resolved_below (habsolute x.2 hs) (hslash x.1 ho) hurl
    have hsame := Text.eq_of_perm_of_below hbelow hperm (o, s) (mem_placements.2 ⟨ho, hs⟩)
    rw [← resolved_eq_append_iff (habsolute s hs) (hslash o ho)]
    cases hurl : resolved s o.path with
    | error exc =>
      -- what is specified is not empty
      obtain ⟨t, ht⟩ := hslash o ho
      rw [hurl, ht] at hsame
      exact absurd hsame.symm (List.append_ne_nil_of_right_ne_nil _ (List.cons_ne_nil _ _))
    | ok url =>
      rw [hurl] at hsame
      exact congrArg Except.ok hsame
  · intro hlocated
    have hresolved : ∀ o ∈ operations paths, ∀ s ∈ servers,
        resolved s o.path = .ok (rstripSlash s ++ o.path) := fun o ho s hs ↦
      (resolved_eq_append_iff (habsolute s hs) (hslash o ho)).2 (hlocated o ho s hs)
    have hreturns : ∃ res, parse_openapi content base_url = .ok res := by
      refine parse_openapi_returns hdoc fun o ho s hs ↦ ⟨_, hresolved o ho s hs, ?_⟩
      obtain ⟨b, hb, hbase⟩ := base_of_absolute (habsolute s hs)
      have hsplit := splittable_of_base hb hbase (lstripSlash o.path)
      rw [(hlocated o ho s hs).1]
      rw [List.append_assoc] at hsplit
      exact hsplit
    obtain ⟨res, hres⟩ := hreturns
    refine ⟨res, hres, ?_⟩
    rw [parse_openapi_placed hdoc hres, reported_eq, specified_eq]
    have hsame : ∀ x ∈ placements servers paths, (resolved x.2 x.1.path).toOption.getD [] =
        rstripSlash x.2 ++ x.1.path := by
      intro x hx
      obtain ⟨ho, hs⟩ := mem_placements.1 hx
      rw [hresolved x.1 ho x.2 hs]
      rfl
    exact .of_eq (List.map_congr_left fun x hx ↦ by rw [hsame x hx])

end

section

attribute [local instance] asciiTables asciiDigits jsonOnly

/-- A document with one server and these paths. -/
def sampleDocument (paths : Dict) : Dict := Dict.recipe [
  ("openapi", Json.text "3.0.0"),
  ("servers", .arr [.obj (Dict.recipe [("url", Json.text "https://api.app.example/v1")])]),
  ("paths", .obj paths)]

def sampleServer : Text := "https://api.app.example/v1".toList

theorem sampleDocument_servers (paths : Dict) :
    HasServers (sampleDocument paths) [] [sampleServer] :=
  HasServers.listed [Dict.recipe [("url", Json.text "https://api.app.example/v1")]] [sampleServer] rfl
    (.cons ⟨rfl, by decide⟩ .nil) (by decide)

theorem sampleServer_absolute : ∀ s ∈ [sampleServer], AbsoluteHttp s := by
  intro s hs
  obtain rfl := List.mem_singleton.1 hs
  have hsplit : Url.urlsplit sampleServer = .ok ⟨"https".toList, "api.app.example".toList, "/v1".toList, [], []⟩ := by
    decide +kernel
  exact ⟨_, hsplit, .inr rfl, by decide⟩

/-- An operation without parameters. -/
def plainOperation : Dict := Dict.recipe [("summary", Json.text "no parameters")]

theorem plainOperation_wellFormed : WellFormedOperation plainOperation where
  parameters := ⟨[], rfl⟩
  body rb h := by cases h
  security := ⟨[], rfl⟩

/-- One path with one operation. -/
def onePath (path method : String) : Dict :=
  Dict.recipe [(path, .obj (Dict.recipe [(method, .obj plainOperation)]))]

theorem usersPath_complete : ∃ res, parse_openapi (.document (.obj (sampleDocument (onePath "/users/7" "get")))) [] =
    .ok res ∧ (res.endpoints.map placed).Perm (specified [sampleServer] (onePath "/users/7" "get")) := by
  have hone : operations (onePath "/users/7" "get") =
      [⟨"/users/7".toList, "get".toList, plainOperation⟩] := rfl
  refine (parse_openapi_complete_iff ⟨⟨_, rfl, sampleDocument_servers _, rfl⟩, ?_⟩ sampleServer_absolute ?_).2 ?_
  · intro o ho
    rw [hone] at ho
    obtain rfl := List.mem_singleton.1 ho
    exact plainOperation_wellFormed
  · intro p hp
    obtain rfl := List.mem_singleton.1 hp
    exact ⟨_, rfl⟩
  · intro o ho s hs
    rw [hone] at ho
    obtain rfl := List.mem_singleton.1 ho
    obtain rfl := List.mem_singleton.1 hs
    refine ⟨by decide, .inr ⟨⟨"https".toList, "api.app.example".toList, "/v1/".toList, [], [], []⟩,
      ⟨"https".toList, [], "users/7".toList, [], [], []⟩, by decide +kernel, by decide +kernel, by decide, by decide,
      .inl ⟨rfl, rfl, rfl, by decide⟩⟩⟩

/-- A path with a colon in its first segment is taken for a URL of its own. -/
theorem colonPath_misplaced :
    ¬ ∀ (content : Content) (base_url : Text) (servers : List Text) (paths : Dict),
      OpenApiDocument content base_url servers paths → (∀ s ∈ servers, AbsoluteHttp s) →
      (∀ p ∈ paths, (∃ t, p.1 = '/' :: t) ∧ ∀ s ∈ Text.split '/' p.1, Url.isDot s = false) →
      ∃ res, parse_openapi content base_url = .ok res ∧
        (res.endpoints.map placed).Perm (specified servers paths) := by
  intro h
  have hone : operations (onePath "/jobs:cancel" "post") =
      [⟨"/jobs:cancel".toList, "post".toList, plainOperation⟩] := rfl
  have hdoc : OpenApiDocument (.document (.obj (sampleDocument (onePath "/jobs:cancel" "post")))) [] [sampleServer]
      (onePath "/jobs:cancel" "post") := by
    refine ⟨⟨_, rfl, sampleDocument_servers _, rfl⟩, fun o ho ↦ ?_⟩
    rw [hone] at ho
    obtain rfl := List.mem_singleton.1 ho
    exact plainOperation_wellFormed
  have hkeys : ∀ p ∈ onePath "/jobs:cancel" "post",
      (∃ t, p.1 = '/' :: t) ∧ ∀ s ∈ Text.split '/' p.1, Url.isDot s = false := by
    intro p hp
    obtain rfl := List.mem_singleton.1 hp
    exact ⟨⟨_, rfl⟩, by decide⟩
  obtain ⟨res, hres, hperm⟩ := h _ _ _ _ hdoc sampleServer_absolute hkeys
  have hled : resolved sampleServer "/jobs:cancel".toList = .ok "jobs:cancel".toList := by
    rw [resolved_eq_ok_iff]
    decide +kernel
  rw [parse_openapi_placed hdoc hres, hone] at hperm
  have hreported : [(⟨"/jobs:cancel".toList, "post".toList, plainOperation⟩ : Operation)].flatMap
      (reported [sampleServer]) = [("POST".toList, "jobs:cancel".toList)] := by
    rw [List.flatMap_singleton, reported, List.map_singleton, hled]
    exact congrArg (fun t ↦ [(t, "jobs:cancel".toList)]) (by decide)
  rw [hreported] at hperm
  have hmem := hperm.subset List.mem_cons_self
  rw [specified, hone, List.flatMap_singleton, List.map_singleton, List.mem_singleton, Prod.mk.injEq] at hmem
  exact absurd hmem.2 (by decide)

end

end Discovery

end Sentrik
