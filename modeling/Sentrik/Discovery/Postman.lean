import Sentrik.Discovery.Merge
import Sentrik.Discovery.OpenApi
import Sentrik.Library.Placeholder

/-!
# Postman collections

A collection is a tree of folders with requests for leaves. The walk through it reports the requests in the
order of the document, and fills the variables of the collection into their URLs, one after the other.

What is reported depends on the leaves only (`walk_items`), and where the texts around the placeholders and
the values have no double brackets the variables are substituted all at once (`parse_postman_placed`).
-/

namespace Sentrik

namespace Discovery

section

variable [u : UnicodeTables]

/-! ### Variables -/

section

variable [NumberTables]

/-- Write a variable: the value is replaced, the key stays. -/
def setVariable : List (HashKey × Json × Json) → HashKey × Json × Json → List (HashKey × Json × Json)
  | [], e => [e]
  | (h, key, value) :: rest, e =>
    if h = e.1 then (h, key, e.2.2) :: rest else (h, key, value) :: setVariable rest e

/-- The variables of a collection, with their keys. -/
def postmanVariables (doc : Dict) : Except Raised (List (Json × Json)) := do
  let items ← (doc.getD "variable" (.arr [])).iter
  let entries ← (items.filterMap Json.dict?).mapM fun v ↦ do
    return (← hashKey (v.get "key"), v.get "key", v.get "value")
  return (entries.foldl setVariable []).map Prod.snd

end

/-- A variable that is replaced: it has a key and a value. -/
def namedValue : Json × Json → Option (Text × Text)
  | (_, .null) => none
  | (key, value) => if key.truthy then some (key.toText, value.toText) else none

def resolve (vars : List (Json × Json)) (s : Text) : Text :=
  Placeholder.fill '\x7b' '\x7d' (vars.filterMap namedValue) s

/-! ### Requests -/

omit u in
def postmanParam : Json → Option Dict
  | .obj q =>
    if (Dict.get q "key").truthy then
      some (Dict.recipe [("name", Dict.get q "key"), ("in", Json.text "query"),
        ("type", Json.text "string"), ("required", .bool false)])
    else none
  | _ => none

omit u in
def postmanParams : Json → Except Raised (List Dict)
  | .obj url => do
    let items ← ((Dict.getD url "query" (.arr [])).or (.arr [])).iter
    return items.filterMap postmanParam
  | _ => return []

/-- A header says who asks. -/
def anyAuthorization : List Json → Except Raised Bool
  | [] => return false
  | .obj h :: rest => do
    let name ← (Dict.getD h "key" (Json.text "")).asText
    if u.lower name = "authorization".toList then return true else anyAuthorization rest
  | _ :: rest => anyAuthorization rest

def postmanAuth (req : Dict) : Except Raised Bool := do
  if (req.get "auth").truthy then return true
  else anyAuthorization (← (req.getD "header" (.arr [])).iter)

omit u in
def postmanBody (req : Dict) : Dict :=
  match req.get "body" with
  | .obj body =>
    if (Dict.get body "mode").truthy then Dict.recipe [("content_type", Dict.get body "mode")] else []
  | _ => []

omit u in
/-- The URL as it is written. -/
def rawUrl (req : Dict) : Json :=
  match req.get "url" with
  | .obj url => Dict.get url "raw"
  | url => url

/-- The URL with the variables filled in, if it is a text. -/
def postmanUrl (vars : List (Json × Json)) (req : Dict) : Json :=
  match (rawUrl req).or (Json.text "") with
  | .str s => .str (resolve vars s)
  | raw => raw

omit u in
/-- What the library splits: it is kept under its argument first. -/
def urlText : Json → Except Raised Text
  | .str t => .ok t
  | .arr _ | .obj _ => .error .TypeError
  | _ => .error .AttributeError

variable [d : DigitTables]

/-- The endpoint of a request, nothing without a URL. -/
def postmanEndpoint (vars : List (Json × Json)) (req : Dict) :
    Except Raised (Option DiscoveredEndpoint) := do
  let raw := postmanUrl vars req
  if raw.truthy then
    let params ← postmanParams (req.get "url")
    let auth ← postmanAuth req
    let method ← methodText (req.getD "method" (Json.text "GET"))
    let url ← urlText raw
    let ep ← DiscoveredEndpoint.post_init {
      method, url
      provenance := .POSTMAN
      parameters := params
      request_body_schema := postmanBody req
      auth_required := auth }
    return some ep
  else return none

/-- The endpoint of an item that is no folder. -/
def itemEndpoint (vars : List (Json × Json)) (it : Dict) : Except Raised (List DiscoveredEndpoint) := do
  match it.get "request" with
  | .obj req => return (← postmanEndpoint vars req).toList
  | _ => return []

/-! ### Folders -/

mutual

/-- The items of a folder. -/
def walk (vars : List (Json × Json)) : Json → Except Raised (List DiscoveredEndpoint)
  | .arr items => walkItems vars items
  | .num _ zero => if zero then .ok [] else .error .TypeError
  | .bool b => if b then .error .TypeError else .ok []
  -- the characters of a text and the keys of a dictionary are no items
  | .null | .str _ | .obj _ => .ok []

def walkItems (vars : List (Json × Json)) : List Json → Except Raised (List DiscoveredEndpoint)
  | [] => .ok []
  | it :: rest => do
    let eps ← walkItem vars it
    return eps ++ (← walkItems vars rest)

def walkItem (vars : List (Json × Json)) : Json → Except Raised (List DiscoveredEndpoint)
  | .obj it => walkFields vars it it
  | _ => .ok []

/-- An item is a folder if one of its keys says so. -/
def walkFields (vars : List (Json × Json)) (it : Dict) :
    List (Text × Json) → Except Raised (List DiscoveredEndpoint)
  | [] => itemEndpoint vars it
  | (key, value) :: rest =>
    if key = "item".toList then walk vars value else walkFields vars it rest

end

/-- Read a collection. What an item raises is not caught. -/
def parse_postman [NumberTables] [DocumentLibrary] (content : Content) : Except Raised ParseResult :=
  match _load content with
  | .error err => .ok { warnings := [.text err] }
  | .ok (.obj doc) => do
    let vars ← postmanVariables doc
    let endpoints ← walk vars (Dict.getD doc "item" (.arr []))
    return {
      endpoints
      warnings :=
        if endpoints.isEmpty then [.text "no requests found in Postman collection".toList] else [] }
  | .ok _ => .ok (.warn "Postman root is not an object")

/-! ### Collections -/

omit u d in
/-- A collection: requests, and folders of them. A folder keeps its other fields. -/
inductive Item
  | request (fields : Dict) (leaf : fields.get? "item".toList = none)
  | folder (fields : Dict) (items : List Item)

omit u d in
/-- An item as a document. -/
def Item.toJson : Item → Json
  | request fields _ => .obj fields
  | folder fields items => .obj (fields.setItem "item".toList (.arr (items.map toJson)))

omit u d in
/-- The requests of an item, in the order of the document. -/
def Item.leaves : Item → List Dict
  | request fields _ => [fields]
  | folder _ items => items.flatMap leaves

theorem walkFields_eq (vars : List (Json × Json)) (it fields : Dict) :
    walkFields vars it fields =
      match fields.get? "item".toList with
      | some items => walk vars items
      | none => itemEndpoint vars it := by
  induction fields with
  | nil => rfl
  | cons e rest ih =>
    obtain ⟨key, value⟩ := e
    rw [walkFields, Dict.get?, List.lookup_cons]
    by_cases hkey : key = "item".toList
    · rw [if_pos hkey, hkey, beq_self_eq_true]
    · rw [if_neg hkey, beq_false_of_ne (Ne.symm hkey)]
      exact ih

/-- A loop over two lists. -/
theorem walkItems_cons (vars : List (Json × Json)) (it : Json) (rest : List Json) :
    walkItems vars (it :: rest) =
      (walkItem vars it).bind fun eps ↦ (walkItems vars rest).map (eps ++ ·) := by
  rw [walkItems]
  cases walkItem vars it <;> cases walkItems vars rest <;> rfl

omit u d in
theorem mapM_append_flatten {ε α β : Type} (f : α → Except ε (List β)) (l l' : List α) :
    ((l ++ l').mapM f).map List.flatten =
      ((l.mapM f).map List.flatten).bind fun ys ↦ ((l'.mapM f).map List.flatten).map (ys ++ ·) := by
  rw [List.mapM_append]
  cases l.mapM f with
  | error exc => rfl
  | ok ys =>
    cases l'.mapM f with
    | error exc => rfl
    | ok ys' => exact congrArg Except.ok List.flatten_append

mutual

theorem walkItem_toJson (vars : List (Json × Json)) :
    ∀ it : Item, walkItem vars it.toJson = (it.leaves.mapM (itemEndpoint vars)).map List.flatten
  | .request fields leaf => by
    rw [Item.toJson, walkItem, walkFields_eq, leaf, Item.leaves, List.mapM_cons]
    cases itemEndpoint vars fields with
    | error exc => rfl
    | ok eps => exact congrArg Except.ok (List.append_nil eps).symm
  | .folder fields items => by
    rw [Item.toJson, walkItem, walkFields_eq, Dict.get?_setItem, if_pos rfl, Item.leaves]
    exact walkItems_toJson vars items

/-- **The folders do not matter**: the walk goes through the leaves. -/
theorem walkItems_toJson (vars : List (Json × Json)) : ∀ items : List Item,
    walkItems vars (items.map Item.toJson) =
      ((items.flatMap Item.leaves).mapM (itemEndpoint vars)).map List.flatten
  | [] => rfl
  | it :: rest => by
    rw [List.map_cons, walkItems_cons, walkItem_toJson vars it, walkItems_toJson vars rest,
      List.flatMap_cons, mapM_append_flatten]

end

/-! ### What is reported -/

omit u d in
/-- A URL with placeholders. -/
abbrev Template := List (Placeholder.Piece '\x7b' '\x7d')

/-- A template with the values of the variables, of one name the first. -/
def filled (vars : List (Json × Json)) (template : Template) : Text :=
  Placeholder.render (fun name ↦ (vars.filterMap namedValue).lookup name) template

/-- The names have no brackets, the values no double ones. -/
def Clear (vars : List (Json × Json)) : Prop :=
  ∀ e ∈ vars.filterMap namedValue, ('\x7b' ∉ e.1 ∧ '\x7d' ∉ e.1) ∧ Placeholder.Quiet '\x7b' e.2

instance (vars : List (Json × Json)) : Decidable (Clear vars) := inferInstanceAs (Decidable (∀ _ ∈ _, _))

omit d in
theorem resolve_eq {vars : List (Json × Json)} (h : Clear vars) (template : Template) :
    resolve vars (Placeholder.render (fun _ ↦ none) template) = filled vars template :=
  Placeholder.fill_render h (by decide) template

omit u d in
/-- A request with a method, where none is written as the empty one, and a URL. -/
structure Described (fields : Dict) (method : Text) (template : Template) (req : Dict) : Prop where
  request : fields.get "request" = .obj req
  method : methodText (req.getD "method" (Json.text "GET")) = .ok method
  url : rawUrl req = .str (Placeholder.render (fun _ ↦ none) template)
  query : ∀ url : Dict, req.get "url" = .obj url →
    ∃ items, ((url.getD "query" (.arr [])).or (.arr [])).iter = .ok items
  header : ∃ headers, req.getD "header" (.arr []) = .arr headers ∧
    ∀ h : Dict, .obj h ∈ headers → ∃ name, h.getD "key" (Json.text "") = .str name

omit d in
theorem anyAuthorization_returns {headers : List Json}
    (h : ∀ h : Dict, .obj h ∈ headers → ∃ name, h.getD "key" (Json.text "") = .str name) :
    ∃ auth, anyAuthorization headers = .ok auth := by
  induction headers with
  | nil => exact ⟨false, rfl⟩
  | cons header rest ih =>
    obtain ⟨auth, hauth⟩ := ih fun d hd ↦ h d (List.mem_cons_of_mem _ hd)
    cases header with
    | obj fields =>
      obtain ⟨name, hname⟩ := h fields List.mem_cons_self
      rw [anyAuthorization, hname]
      show ∃ auth, (if u.lower name = _ then Except.ok true else anyAuthorization rest) = .ok auth
      split
      · exact ⟨true, rfl⟩
      · exact ⟨auth, hauth⟩
    | _ => exact ⟨auth, hauth⟩

/-- A request is built from its method and the filled URL. -/
theorem postmanEndpoint_eq {vars : List (Json × Json)} (hclear : Clear vars) {fields req : Dict} {method : Text}
    {template : Template} (h : Described fields method template req) :
    ∃ ep : DiscoveredEndpoint, ep.method = method ∧ ep.url = filled vars template ∧ ep.path_template = [] ∧
      postmanEndpoint vars req =
        if filled vars template = [] then .ok none else ep.post_init.map some := by
  have hurl : postmanUrl vars req = .str (filled vars template) := by
    have hor : (rawUrl req).or (Json.text "") = .str (Placeholder.render (fun _ ↦ none) template) := by
      rw [h.url, Json.or]
      cases Placeholder.render (fun _ ↦ none) template <;> rfl
    rw [postmanUrl, hor, ← resolve_eq hclear]
  have hparams : ∃ params, postmanParams (req.get "url") = .ok params := by
    rw [postmanParams.eq_def]
    split
    · next url hobj =>
      obtain ⟨items, hitems⟩ := h.query url hobj
      rw [hitems]
      exact ⟨_, rfl⟩
    · exact ⟨_, rfl⟩
  have hauth : ∃ auth, postmanAuth req = .ok auth := by
    obtain ⟨headers, hheaders, hnamed⟩ := h.header
    obtain ⟨auth, hauth⟩ := anyAuthorization_returns hnamed
    rw [postmanAuth, hheaders]
    split
    · exact ⟨true, rfl⟩
    · exact ⟨auth, hauth⟩
  obtain ⟨params, hparams⟩ := hparams
  obtain ⟨auth, hauth⟩ := hauth
  refine ⟨{
    method
    url := filled vars template
    provenance := .POSTMAN
    parameters := params
    request_body_schema := postmanBody req
    auth_required := auth }, rfl, rfl, rfl, ?_⟩
  by_cases hnil : filled vars template = []
  · rw [postmanEndpoint, hurl, hnil]
    rfl
  · have htruthy : (Json.str (filled vars template)).truthy = true := by
      obtain ⟨c, t, ht⟩ := List.exists_cons_of_ne_nil hnil
      rw [ht]
      rfl
    rw [postmanEndpoint, hurl, htruthy, hparams, hauth, h.method, if_neg hnil]
    show (DiscoveredEndpoint.post_init _).bind _ = _
    cases DiscoveredEndpoint.post_init _ <;> rfl

/-- What is reported of a request. -/
def described (vars : List (Json × Json)) (r : Text × Template) : Text × Text :=
  (u.upper (if r.1 = [] then "GET".toList else r.1), filled vars r.2)

/-- Building an endpoint splits its URL. -/
theorem post_init_iff {ep : DiscoveredEndpoint} (htemplate : ep.path_template = []) :
    (∃ ep', ep.post_init = .ok ep') ↔ Splittable ep.url := by
  refine ⟨fun ⟨ep', h⟩ ↦ ?_, fun h ↦ (post_init_returns h).imp fun _ h ↦ h.1⟩
  rw [DiscoveredEndpoint.post_init, if_pos htemplate] at h
  cases hparts : Url.urlsplit ep.url with
  | error message =>
    rw [hparts] at h
    cases h
  | ok parts => exact ⟨parts, hparts⟩

theorem placed_of_post_init {ep ep' : DiscoveredEndpoint} (h : ep.post_init = .ok ep') :
    placed ep' = (u.upper (if ep.method = [] then "GET".toList else ep.method), ep.url) := by
  rw [DiscoveredEndpoint.post_init] at h
  by_cases htemplate : ep.path_template = [] <;> by_cases hversion : ep.api_version = [] <;>
    cases hparts : Url.urlsplit ep.url
  all_goals
    simp only [htemplate, hversion, hparts, if_true, if_false] at h
    cases h
  all_goals rfl

/-- One item: it is left out if its URL is empty. -/
theorem itemEndpoint_eq {vars : List (Json × Json)} (hclear : Clear vars) {fields req : Dict}
    {r : Text × Template} (h : Described fields r.1 r.2 req) :
    ∃ ep : DiscoveredEndpoint, ep.method = r.1 ∧ ep.url = filled vars r.2 ∧ ep.path_template = [] ∧
      itemEndpoint vars fields =
        if filled vars r.2 = [] then .ok [] else ep.post_init.map fun ep ↦ [ep] := by
  obtain ⟨ep, hmethod, hurl, htemplate, heq⟩ := postmanEndpoint_eq hclear h
  refine ⟨ep, hmethod, hurl, htemplate, ?_⟩
  rw [itemEndpoint, h.request]
  show (postmanEndpoint vars req).bind _ = _
  rw [heq]
  split
  · rfl
  · cases ep.post_init <;> rfl

/-- An item is read exactly if its URL can be split. -/
theorem exists_itemEndpoint_iff {vars : List (Json × Json)} (hclear : Clear vars) {fields req : Dict}
    {r : Text × Template} (h : Described fields r.1 r.2 req) :
    (∃ eps, itemEndpoint vars fields = .ok eps) ↔ Splittable (filled vars r.2) := by
  obtain ⟨ep, -, hurl, htemplate, heq⟩ := itemEndpoint_eq hclear h
  rw [heq]
  split
  next hnil =>
    rw [hnil]
    exact iff_of_true ⟨_, rfl⟩ ⟨_, rfl⟩
  next =>
    rw [← hurl, ← post_init_iff htemplate]
    cases ep.post_init with
    | error exc => exact iff_of_false (fun ⟨_, h⟩ ↦ nomatch h) fun ⟨_, h⟩ ↦ nomatch h
    | ok ep' => exact iff_of_true ⟨_, rfl⟩ ⟨_, rfl⟩

theorem itemEndpoint_placed {vars : List (Json × Json)} (hclear : Clear vars) {fields req : Dict}
    {r : Text × Template} (h : Described fields r.1 r.2 req) {eps : List DiscoveredEndpoint}
    (heps : itemEndpoint vars fields = .ok eps) :
    eps.map placed = ([r].filter fun r ↦ filled vars r.2 ≠ []).map (described vars) := by
  obtain ⟨ep, hmethod, hurl, -, heq⟩ := itemEndpoint_eq hclear h
  rw [heq] at heps
  split at heps
  next hnil =>
    obtain rfl := Except.ok.inj heps
    rw [List.filter_cons, if_neg (by simpa using hnil)]
    rfl
  next hne =>
    cases hbuilt : ep.post_init with
    | error exc =>
      rw [hbuilt] at heps
      cases heps
    | ok ep' =>
      rw [hbuilt] at heps
      obtain rfl := Except.ok.inj heps
      rw [List.filter_cons, if_pos (by simpa using hne), List.map_cons, placed_of_post_init hbuilt, hmethod,
        hurl]
      rfl

/-- The leaves of a collection are read exactly if each of them is. -/
theorem exists_leaves_iff {vars : List (Json × Json)} (hclear : Clear vars) {leaves : List Dict}
    {requests : List (Text × Template)}
    (hrequests : List.Forall₂ (fun fields r ↦ ∃ req, Described fields r.1 r.2 req) leaves requests) :
    (∃ epss, leaves.mapM (itemEndpoint vars) = .ok epss) ↔
      ∀ r ∈ requests, Splittable (filled vars r.2) := by
  induction hrequests with
  | nil => exact iff_of_true ⟨[], rfl⟩ fun r hr ↦ absurd hr List.not_mem_nil
  | @cons fields r leaves requests hone _ ih =>
    obtain ⟨req, hone⟩ := hone
    rw [List.forall_mem_cons, ← ih, ← exists_itemEndpoint_iff hclear hone, List.mapM_cons]
    cases itemEndpoint vars fields with
    | error exc => exact iff_of_false (fun ⟨_, h⟩ ↦ nomatch h) fun ⟨⟨_, h⟩, _⟩ ↦ nomatch h
    | ok eps =>
      cases leaves.mapM (itemEndpoint vars) with
      | error exc => exact iff_of_false (fun ⟨_, h⟩ ↦ nomatch h) fun ⟨_, _, h⟩ ↦ nomatch h
      | ok epss => exact iff_of_true ⟨_, rfl⟩ ⟨⟨_, rfl⟩, _, rfl⟩

/-- What is read is reported in order. -/
theorem leaves_placed {vars : List (Json × Json)} (hclear : Clear vars) {leaves : List Dict}
    {requests : List (Text × Template)}
    (hrequests : List.Forall₂ (fun fields r ↦ ∃ req, Described fields r.1 r.2 req) leaves requests)
    {epss : List (List DiscoveredEndpoint)} (h : leaves.mapM (itemEndpoint vars) = .ok epss) :
    epss.flatten.map placed =
      (requests.filter fun r ↦ filled vars r.2 ≠ []).map (described vars) := by
  induction hrequests generalizing epss with
  | nil =>
    obtain rfl := Except.ok.inj h
    rfl
  | @cons fields r leaves requests hone _ ih =>
    obtain ⟨req, hone⟩ := hone
    rw [List.mapM_cons] at h
    obtain ⟨eps, hfirst, h⟩ := exists_of_bind_eq_ok h
    obtain ⟨epss', hrest, h⟩ := exists_of_bind_eq_ok h
    obtain rfl := Except.ok.inj h
    have hplaced := itemEndpoint_placed hclear hone hfirst
    rw [List.flatten_cons, List.map_append, hplaced, ih hrest, ← List.map_append, ← List.filter_append,
      List.singleton_append]

end

section

attribute [local instance] asciiTables asciiDigits plainNumbers jsonOnly

/-- A request to a URL. -/
def sampleRequest (method url : String) : Dict :=
  Dict.recipe [("name", Json.text "request"), ("request", .obj (Dict.recipe [
    ("method", Json.text method), ("header", .arr []), ("url", Json.text url)]))]

theorem sampleRequest_leaf (method url : String) :
    (sampleRequest method url).get? "item".toList = none := by
  have hname : "item".toList ≠ "name".toList := by decide
  have hrequest : "item".toList ≠ "request".toList := by decide
  rw [sampleRequest, Dict.get?, Dict.recipe, List.map_cons, List.map_cons, List.map_nil, List.lookup_cons,
    beq_false_of_ne hname, List.lookup_cons, beq_false_of_ne hrequest, List.lookup_nil]

theorem sampleRequest_described {method url : String} {template : Template} (hmethod : method.toList ≠ [])
    (hurl : url.toList = Placeholder.render (fun _ ↦ none) template) :
    ∃ req, Described (sampleRequest method url) method.toList template req := by
  have htext : methodText (Json.text method) = .ok method.toList := by
    obtain ⟨c, t, ht⟩ := List.exists_cons_of_ne_nil hmethod
    rw [Json.text, ht]
    rfl
  have hread : ∀ key default, Dict.getD (Dict.recipe [("method", Json.text method), ("header", .arr []),
      ("url", Json.text url)]) key default = if key = "method" then Json.text method
        else if key = "header" then .arr [] else if key = "url" then Json.text url else default := by
    intro key default
    rw [Dict.getD_recipe_cons, Dict.getD_recipe_cons, Dict.getD_recipe_cons, Dict.getD_recipe_nil]
  refine ⟨Dict.recipe [("method", Json.text method), ("header", .arr []), ("url", Json.text url)],
    ?_, ?_, ?_, fun d h ↦ ?_, [], ?_, fun _ h ↦ absurd h List.not_mem_nil⟩
  · rw [sampleRequest, Dict.get_eq_getD, Dict.getD_recipe_cons, if_neg (by decide), Dict.getD_recipe_cons,
      if_pos rfl]
  · rw [hread]
    exact htext
  · rw [rawUrl, Dict.get_eq_getD, hread]
    exact congrArg Json.str hurl
  · rw [Dict.get_eq_getD, hread] at h
    cases h
  · rw [hread]
    rfl

/-- Two requests, one of them in a folder, to a host in a variable. -/
def sampleCollection : List Item := [
  .folder (Dict.recipe [("name", Json.text "users")])
    [.request (sampleRequest "get" "\x7b\x7bbase\x7d\x7d/users/1") (sampleRequest_leaf _ _)],
  .request (sampleRequest "POST" "\x7b\x7bbase\x7d\x7d/login") (sampleRequest_leaf _ _)]

/-- A path below the variable. -/
def belowBase (path : Text) (h : Placeholder.Quiet '\x7b' path) : Template :=
  [.hole "base".toList (by decide), .text path h]

def collectionDocument : Dict := Dict.recipe [
  ("item", .arr (sampleCollection.map Item.toJson)),
  ("variable", .arr [.obj (Dict.recipe [("key", Json.text "base"), ("value", Json.text "https://app.example")])])]

end

end Discovery

end Sentrik
