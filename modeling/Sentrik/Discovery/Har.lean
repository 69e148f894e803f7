import Sentrik.Discovery.Inventory
import Sentrik.Library.JsonReader

/-!
# HAR logs

A log is read entry by entry; what an entry raises becomes a warning. Entries to other hosts are left out
twice: the parser compares the host with the texts of the record as they stand, and the phase asks the
guard, which reads them in lower case, stripped, and with wildcards.

So an entry is taken exactly where the guard's answer is yes and the record has the host letter by letter
(`har_agrees_iff`): the traffic that a wildcard or a capital letter admits is lost.
-/

namespace Sentrik

namespace Discovery

/-! ### Artifacts -/

/-- An artifact, as its text or loaded. -/
inductive Content
  | text (t : Text)
  | document (doc : Json)

/-- The loader for what is no JSON text. -/
class DocumentLibrary where
  safe_load : Text → Except Text Json

/-- What a parser has to say beside the endpoints. -/
inductive Warning
  | text (t : Text)
  | skipped (exc : Raised)

structure ParseResult where
  endpoints : List DiscoveredEndpoint := []
  warnings : List Warning := []

/-- A result without endpoints. -/
def ParseResult.warn (t : String) : ParseResult := { warnings := [.text t.toList] }

section

variable [u : UnicodeTables]

/-- Load an artifact, or say why not. -/
def _load [library : DocumentLibrary] : Content → Except Text Json
  | .document doc => .ok doc
  | .text content =>
    let t := Text.strip content
    if t = [] then .error "empty artifact".toList
    else
      match JsonText.loads t with
      | some doc => .ok doc
      | none => (library.safe_load t).mapError ("could not parse as JSON or YAML: ".toList ++ ·)

/-! ### Entries -/

/-- A named item as a parameter, nothing for one without a name. -/
def harParam (location : String) (item : Json) : Except Raised (Option Dict) := do
  let item ← item.asDict
  if (item.get "name").truthy then
    return some (Dict.recipe [("name", item.get "name"), ("in", Json.text location),
      ("type", Json.text "string"), ("required", .bool false)])
  else return none

/-- The named items of a list as parameters. -/
def harParams (location : String) (items : Json) : Except Raised (List Dict) := do
  let params ← (← items.iter).mapM (harParam location)
  return params.reduceOption

/-- A header says who asks. -/
def anyCredential : List Json → Except Raised Bool
  | [] => return false
  | h :: rest => do
    let h ← h.asDict
    let name ← (h.getD "name" (Json.text "")).asText
    if u.lower name ∈ ["authorization".toList, "cookie".toList] then return true else anyCredential rest

/-- The request of an entry, its URL and the host there, nothing without a URL. -/
def harRequest (entry : Json) : Except Raised (Option (Dict × Text × Text)) := do
  let entry ← entry.asDict
  let req ← (entry.getD "request" (.obj [])).asDict
  if (req.getD "url" (Json.text "")).truthy then
    let url ← (req.getD "url" (Json.text "")).asText
    let host ← _host url
    return some (req, url, host)
  else return none

omit u in
/-- The parameters and the schema of the body of a request. -/
def harBody (req : Dict) : Except Raised (List Dict × Dict) :=
  match req.get "postData" with
  | .obj post => do
    let params ← harParams "body" ((Dict.getD post "params" (.arr [])).or (.arr []))
    return (params, if (Dict.get post "mimeType").truthy
      then Dict.recipe [("content_type", Dict.get post "mimeType")] else [])
  | _ => .ok ([], [])

/-- `self.method or "GET"`, as far as it is a text. -/
def methodText (method : Json) : Except Raised Text :=
  if method.truthy then method.asText else .ok []

variable [digits : DigitTables]

/-- The endpoint of a request. -/
def harEndpoint (req : Dict) (url : Text) : Except Raised DiscoveredEndpoint := do
  let params ← harParams "query" (req.getD "queryString" (.arr []))
  let body ← harBody req
  let auth ← anyCredential (← (req.getD "headers" (.arr [])).iter)
  let method ← methodText (req.getD "method" (Json.text "GET"))
  DiscoveredEndpoint.post_init {
    method, url
    provenance := .HAR
    parameters := params ++ body.1
    request_body_schema := body.2
    auth_required := auth }

/-- The endpoint of an entry, nothing if it is left out. -/
def harEntry (in_scope_hosts : List Text) (entry : Json) : Except Raised (Option DiscoveredEndpoint) := do
  match ← harRequest entry with
  | none => return none
  | some (req, url, host) =>
    -- only ingest traffic to in-scope hosts
    if in_scope_hosts ≠ [] ∧ host ∉ in_scope_hosts then return none
    else return some (← harEndpoint req url)

def harStep (in_scope_hosts : List Text) (res : ParseResult) (entry : Json) : ParseResult :=
  match harEntry in_scope_hosts entry with
  | .ok none => res
  | .ok (some ep) => { res with endpoints := res.endpoints ++ [ep] }
  | .error exc => { res with warnings := res.warnings ++ [.skipped exc] }

/-- Read a log. No hosts stand for all hosts. -/
def parse_har [DocumentLibrary] (content : Content) (in_scope_hosts : List Text) : ParseResult :=
  match _load content with
  | .error err => { warnings := [.text err] }
  | .ok (.obj doc) =>
    match Dict.get doc "log" with
    | .obj log =>
      match Dict.get log "entries" with
      | .arr entries => entries.foldl (harStep in_scope_hosts) {}
      | _ => .warn "HAR has no log.entries array"
    | _ => .warn "HAR has no log.entries array"
  | .ok _ => .warn "HAR root is not an object"

/-- Every entry stands for itself. -/
theorem endpoints_foldl (in_scope_hosts : List Text) (entries : List Json) (res : ParseResult) :
    (entries.foldl (harStep in_scope_hosts) res).endpoints =
      res.endpoints ++ entries.filterMap fun entry ↦ (harEntry in_scope_hosts entry).toOption.join := by
  induction entries generalizing res with
  | nil => exact (List.append_nil _).symm
  | cons entry rest ih =>
    rw [List.foldl_cons, ih, List.filterMap_cons]
    rcases hentry : harEntry in_scope_hosts entry with exc | _ | ep
    · rw [harStep, hentry]
      rfl
    · rw [harStep, hentry]
      rfl
    · rw [harStep, hentry]
      exact List.append_assoc _ [ep] _

/-! ### Well-formed logs -/

/-- A list of items with names. -/
def ListOfNamed (value : Json) : Prop :=
  ∃ items, value = .arr items ∧
    ∀ item ∈ items, ∃ (d : Dict) (name : Text), item = .obj d ∧ d.get? "name".toList = some (.str name)

/-- A request with a method, a URL that is read as far as anyone asks, and lists of named items. -/
structure WellFormedRequest (req : Dict) (url : Text) : Prop where
  method : ∃ t, req.getD "method" (Json.text "GET") = .str t
  named : req.getD "url" (Json.text "") = .str url
  ne_nil : url ≠ []
  reads : WellFormed url
  splits : Splittable url
  query : ListOfNamed (req.getD "queryString" (.arr []))
  headers : ListOfNamed (req.getD "headers" (.arr []))
  post : ∀ post : Dict, req.get "postData" = .obj post →
    ListOfNamed ((post.getD "params" (.arr [])).or (.arr []))

/-- An entry with such a request to a host. -/
def WellFormedEntry (entry : Json) (host : Text) : Prop :=
  ∃ (d req : Dict) (url : Text), entry = .obj d ∧ d.getD "request" (.obj []) = .obj req ∧
    WellFormedRequest req url ∧ _host url = .ok host

omit u digits in
theorem harParams_returns (location : String) {items : Json} (h : ListOfNamed items) :
    ∃ params, harParams location items = .ok params := by
  obtain ⟨items, rfl, hnamed⟩ := h
  have hmap : ∃ params, items.mapM (harParam location) = .ok params := by
    induction items with
    | nil => exact ⟨[], rfl⟩
    | cons item rest ih =>
      obtain ⟨params, hparams⟩ := ih fun i hi ↦ hnamed i (List.mem_cons_of_mem item hi)
      obtain ⟨d, name, rfl, hname⟩ := hnamed item List.mem_cons_self
      have hone : ∃ param, harParam location (.obj d) = .ok param := by
        show ∃ param, (if (d.get "name").truthy = true then _ else _) = _
        split <;> exact ⟨_, rfl⟩
      obtain ⟨param, hparam⟩ := hone
      exact ⟨param :: params, by rw [List.mapM_cons, hparam, hparams]; rfl⟩
  obtain ⟨params, hparams⟩ := hmap
  refine ⟨params.reduceOption, ?_⟩
  show (items.mapM (harParam location)).bind _ = _
  rw [hparams]
  rfl

omit digits in
theorem anyCredential_returns {items : List Json}
    (h : ∀ item ∈ items, ∃ (d : Dict) (name : Text),
      item = .obj d ∧ d.get? "name".toList = some (.str name)) :
    ∃ auth, anyCredential items = .ok auth := by
  induction items with
  | nil => exact ⟨false, rfl⟩
  | cons item rest ih =>
    obtain ⟨d, name, rfl, hname⟩ := h item List.mem_cons_self
    obtain ⟨auth, hauth⟩ := ih fun i hi ↦ h i (List.mem_cons_of_mem _ hi)
    have hget : (Dict.getD d "name" (Json.text "")).asText = .ok name := by
      rw [Dict.getD, hname]
      rfl
    show ∃ auth, ((Dict.getD d "name" (Json.text "")).asText.bind fun name ↦
      if u.lower name ∈ _ then Except.ok true else anyCredential rest) = .ok auth
    rw [hget]
    show ∃ auth, (if u.lower name ∈ _ then Except.ok true else anyCredential rest) = .ok auth
    split
    · exact ⟨true, rfl⟩
    · exact ⟨auth, hauth⟩

omit u digits in
theorem harBody_returns {req : Dict} (h : ∀ post : Dict, req.get "postData" = .obj post →
    ListOfNamed ((post.getD "params" (.arr [])).or (.arr []))) : ∃ body, harBody req = .ok body := by
  rw [harBody]
  split
  · next post hpost =>
    obtain ⟨params, hparams⟩ := harParams_returns "body" (h post hpost)
    rw [hparams]
    exact ⟨_, rfl⟩
  · exact ⟨_, rfl⟩

theorem post_init_returns {ep : DiscoveredEndpoint} (h : Splittable ep.url) :
    ∃ ep', ep.post_init = .ok ep' ∧ ep'.url = ep.url := by
  obtain ⟨parts, hparts⟩ := h
  rw [DiscoveredEndpoint.post_init, hparts]
  by_cases htemplate : ep.path_template = [] <;> by_cases hversion : ep.api_version = []
  all_goals
    simp only [htemplate, hversion, if_true, if_false]
    exact ⟨_, rfl, rfl⟩

/-- A well-formed request has an endpoint. -/
theorem harEndpoint_returns {req : Dict} {url : Text} (h : WellFormedRequest req url) :
    ∃ ep, harEndpoint req url = .ok ep ∧ ep.url = url := by
  obtain ⟨params, hparams⟩ := harParams_returns "query" h.query
  obtain ⟨body, hbody⟩ := harBody_returns h.post
  obtain ⟨headers, hheaders, hnamed⟩ := h.headers
  obtain ⟨auth, hauth⟩ := anyCredential_returns hnamed
  obtain ⟨method, hmethod⟩ := h.method
  have htext : ∃ t, methodText (.str method) = .ok t := by
    rw [methodText]
    split <;> exact ⟨_, rfl⟩
  obtain ⟨t, ht⟩ := htext
  rw [harEndpoint, hparams, hbody, hheaders, hmethod, ht]
  simp only [bind, Except.bind, Json.iter, hauth]
  exact post_init_returns h.splits

/-- A well-formed entry, read with a filter: its endpoint, if the filter has its host. -/
theorem harEntry_eq {entry : Json} {host : Text} (h : WellFormedEntry entry host) :
    ∃ ep, (∀ hosts, harEntry hosts entry =
        .ok (if hosts ≠ [] ∧ host ∉ hosts then none else some ep)) ∧
      _host ep.url = .ok host ∧ WellFormed ep.url ∧ Splittable ep.url := by
  obtain ⟨d, req, url, rfl, hreq, hformed, hhost⟩ := h
  obtain ⟨ep, hep, hurl⟩ := harEndpoint_returns hformed
  refine ⟨ep, fun hosts ↦ ?_, by rw [hurl]; exact hhost, by rw [hurl]; exact hformed.reads,
    by rw [hurl]; exact hformed.splits⟩
  have htruthy : (Json.str url).truthy = true := by
    obtain ⟨c, t, rfl⟩ := List.exists_cons_of_ne_nil hformed.ne_nil
    rfl
  have hread : harRequest (.obj d) = .ok (some (req, url, host)) := by
    rw [harRequest]
    show ((d.getD "request" (.obj [])).asDict.bind _) = _
    rw [hreq]
    show (if (req.getD "url" (Json.text "")).truthy = true then _ else _) = _
    rw [hformed.named, if_pos htruthy]
    show (_host url).bind _ = _
    rw [hhost]
    rfl
  rw [harEntry, hread]
  show (if hosts ≠ [] ∧ host ∉ hosts then _ else _) = _
  split
  · rfl
  · rw [hep]
    rfl

/-! ### The two filters -/

omit u digits in
/-- Where one reading gives what the other gives or nothing, they give the same lists only if they agree. -/
theorem filterMap_eq_iff {α β : Type*} {f g : α → Option β} {l : List α}
    (h : ∀ a ∈ l, f a = none ∨ f a = g a) : l.filterMap f = l.filterMap g ↔ ∀ a ∈ l, f a = g a := by
  constructor
  · intro heq
    induction l with
    | nil => exact fun a ha ↦ absurd ha List.not_mem_nil
    | cons a l ih =>
      have hle : ∀ l : List α, (∀ b ∈ l, f b = none ∨ f b = g b) →
          (l.filterMap f).length ≤ (l.filterMap g).length := by
        intro l
        induction l with
        | nil => exact fun _ ↦ le_rfl
        | cons b l ih =>
          intro hl
          have hrest := ih fun c hc ↦ hl c (List.mem_cons_of_mem b hc)
          rw [List.filterMap_cons, List.filterMap_cons]
          rcases hl b List.mem_cons_self with hnone | hsame
          · rw [hnone]
            cases g b with
            | none => exact hrest
            | some c => exact hrest.trans (Nat.le_succ _)
          · rw [hsame]
            cases g b with
            | none => exact hrest
            | some c => exact Nat.succ_le_succ hrest
      have hl : ∀ b ∈ l, f b = none ∨ f b = g b := fun b hb ↦ h b (List.mem_cons_of_mem a hb)
      have ha : f a = g a ∧ l.filterMap f = l.filterMap g := by
        rw [List.filterMap_cons, List.filterMap_cons] at heq
        rcases h a List.mem_cons_self with hnone | hsame
        · rw [hnone] at heq ⊢
          cases hg : g a with
          | none => exact ⟨rfl, by rw [hg] at heq; exact heq⟩
          | some c =>
            -- one list would be longer
            rw [hg] at heq
            have hlength := congrArg List.length heq
            have hshort := hle l hl
            exact absurd hlength (by
              show ¬(l.filterMap f).length = (l.filterMap g).length + 1
              omega)
        · refine ⟨hsame, ?_⟩
          rw [hsame] at heq
          cases hg : g a with
          | none => rw [hg] at heq; exact heq
          | some c => rw [hg] at heq; exact (List.cons.inj heq).2
      intro b hb
      rcases List.mem_cons.1 hb with rfl | hb
      · exact ha.1
      · exact ih hl ha.2 b hb
  · exact fun heq ↦ List.filterMap_congr heq

/-- The guard's answer about the host of an endpoint. -/
def hostInScope (guard : ScopeGuard) (ep : DiscoveredEndpoint) : Bool :=
  match _host ep.url with
  | .ok host => guard._host_in_scope host
  | .error _ => false

/-- The endpoint of an entry, if the guard has its host in scope. -/
def harInScope (guard : ScopeGuard) (entry : Json) : Option DiscoveredEndpoint :=
  (harEntry [] entry).toOption.join.filter (hostInScope guard)

/-- The artifact is a log with these entries, and they are well formed. -/
def HarDocument [DocumentLibrary] (content : Content) (entries : List Json) : Prop :=
  (∃ doc log : Dict, _load content = .ok (.obj doc) ∧ doc.get "log" = .obj log ∧
    log.get "entries" = .arr entries) ∧ ∀ entry ∈ entries, ∃ host, WellFormedEntry entry host

omit digits in
/-- An entry has one host. -/
theorem WellFormedEntry.unique {entry : Json} {host host' : Text} (h : WellFormedEntry entry host)
    (h' : WellFormedEntry entry host') : host = host' := by
  obtain ⟨d, req, url, rfl, hreq, hformed, hhost⟩ := h
  obtain ⟨d', req', url', hd, hreq', hformed', hhost'⟩ := h'
  obtain rfl := Json.obj.inj hd
  obtain rfl := Json.obj.inj (hreq.symm.trans hreq')
  obtain rfl := Json.str.inj (hformed.named.symm.trans hformed'.named)
  exact Except.ok.inj (hhost.symm.trans hhost')

theorem parse_har_endpoints [DocumentLibrary] {content : Content} {entries : List Json}
    (h : HarDocument content entries) (hosts : List Text) : (parse_har content hosts).endpoints =
      entries.filterMap fun entry ↦ (harEntry hosts entry).toOption.join := by
  obtain ⟨⟨doc, log, hload, hlog, hentries⟩, -⟩ := h
  rw [parse_har, hload]
  show (match doc.get "log" with | .obj log => _ | _ => _ : ParseResult).endpoints = _
  rw [hlog]
  show (match log.get "entries" with | .arr entries => _ | _ => _ : ParseResult).endpoints = _
  rw [hentries]
  exact endpoints_foldl hosts entries {}

omit digits in
theorem inScope_eq_hostInScope [LawfulUnicodeTables] (guard : ScopeGuard) (ep : DiscoveredEndpoint) :
    inScope guard ep = hostInScope guard ep := by
  rw [inScope, hostInScope]
  cases hhost : _host ep.url with
  | error exc => rfl
  | ok host =>
    have hlower : u.lower host = host := by
      rw [_host] at hhost
      cases hsplit : Url.urlsplit ep.url with
      | error message =>
        rw [hsplit] at hhost
        cases hhost
      | ok parts =>
        rw [hsplit] at hhost
        obtain rfl := Except.ok.inj hhost
        exact LawfulUnicodeTables.lower_of_infix (List.infix_refl _)
    show (guard.evaluate_new_asset host).allowed = guard._host_in_scope host
    rw [ScopeGuard.evaluate_new_asset, hlower]
    split
    · next hin => exact hin.symm
    · next hnot => exact (Bool.eq_false_iff.2 hnot).symm

omit digits in
theorem allowed_hosts_ne_nil {guard : ScopeGuard} {host : Text} (h : guard._host_in_scope host = true) :
    guard.record.allowed_hosts ≠ [] := by
  intro hnil
  rw [ScopeGuard._host_in_scope, ScopeGuard._allowed_hosts, hnil] at h
  cases h

/-- **The two filters agree** on a log exactly when the record has every host of it that the guard admits
letter by letter. -/
theorem har_agrees_iff [LawfulUnicodeTables] [DocumentLibrary] {guard : ScopeGuard} {content : Content}
    {entries : List Json} (hdoc : HarDocument content entries)
    {asked : List (DiscoveredEndpoint × DnsAnswer)}
    (hasked : asked.map Prod.fst = (parse_har content guard.record.allowed_hosts).endpoints)
    (hdns : ∀ x ∈ asked, ¬∃ message, x.2 = .unicodeError message) :
    (∃ warnings, keep_in_scope guard asked = .ok (entries.filterMap (harInScope guard), warnings)) ↔
      ∀ entry ∈ entries, ∀ host, WellFormedEntry entry host → guard._host_in_scope host = true →
        host ∈ guard.record.allowed_hosts := by
  rw [parse_har_endpoints hdoc] at hasked
  -- no endpoint of the log stops the phase
  have hreturns : ∃ kept, keep_in_scope guard asked = .ok kept := by
    refine keep_in_scope_returns_iff.2 fun x hx ↦ ?_
    have hmem : x.1 ∈ asked.map Prod.fst := List.mem_map_of_mem hx
    rw [hasked] at hmem
    obtain ⟨entry, hentry, hep⟩ := List.mem_filterMap.1 hmem
    obtain ⟨host, hformed⟩ := hdoc.2 entry hentry
    obtain ⟨ep, hread, -, hreads, hsplits⟩ := harEntry_eq hformed
    obtain rfl : ep = x.1 := by
      rw [hread] at hep
      change (if _ then none else some ep : Option _) = some x.1 at hep
      split at hep
      · cases hep
      · exact Option.some.inj hep
    exact ⟨⟨hreads, fun p _ _ ↦ hdns x hx⟩, hsplits⟩
  obtain ⟨⟨kept, warnings⟩, hkept⟩ := hreturns
  have hfilter := kept_of_keep_in_scope hkept
  rw [hasked, List.filter_filterMap] at hfilter
  -- entry by entry: what is kept, and what is in scope
  have hentry : ∀ entry ∈ entries, ∀ host, WellFormedEntry entry host → ∃ ep,
      (harEntry guard.record.allowed_hosts entry).toOption.join.filter (inScope guard) =
          (if guard._host_in_scope host = true ∧ host ∈ guard.record.allowed_hosts then some ep else none) ∧
        harInScope guard entry = if guard._host_in_scope host = true then some ep else none := by
    intro entry _ host hformed
    obtain ⟨ep, hread, hhost, -, -⟩ := harEntry_eq hformed
    have hscope : hostInScope guard ep = guard._host_in_scope host := by rw [hostInScope, hhost]
    refine ⟨ep, ?_, ?_⟩
    · rw [hread]
      show Option.filter (inScope guard) (if guard.record.allowed_hosts ≠ [] ∧
        host ∉ guard.record.allowed_hosts then none else some ep) = _
      by_cases hin : guard._host_in_scope host = true
      · by_cases hmem : host ∈ guard.record.allowed_hosts
        · rw [if_neg (by rintro ⟨-, hnot⟩; exact hnot hmem), if_pos ⟨hin, hmem⟩, Option.filter_some,
            inScope_eq_hostInScope, hscope, if_pos hin]
        · rw [if_pos ⟨allowed_hosts_ne_nil hin, hmem⟩, if_neg fun h : _ ∧ _ ↦ hmem h.2]
          rfl
      · rw [if_neg fun h : _ ∧ _ ↦ hin h.1]
        split
        · rfl
        · rw [Option.filter_some, inScope_eq_hostInScope, hscope, if_neg hin]
    · rw [harInScope, hread]
      show Option.filter (hostInScope guard)
        (if ([] : List Text) ≠ [] ∧ host ∉ ([] : List Text) then none else some ep) = _
      rw [if_neg (by rintro ⟨hne, -⟩; exact hne rfl), Option.filter_some, hscope]
  have hlists : (∃ warnings, keep_in_scope guard asked =
      .ok (entries.filterMap (harInScope guard), warnings)) ↔
        kept = entries.filterMap (harInScope guard) := by
    rw [hkept]
    constructor
    · rintro ⟨_, h⟩
      exact congrArg Prod.fst (Except.ok.inj h)
    · rintro rfl
      exact ⟨warnings, rfl⟩
  rw [hlists, hfilter, filterMap_eq_iff]
  · constructor
    · intro h entry hmem host hformed hin
      obtain ⟨ep, hkeep, hall⟩ := hentry entry hmem host hformed
      have hsame := h entry hmem
      rw [hkeep, hall, if_pos hin] at hsame
      by_contra hnot
      rw [if_neg fun hboth : _ ∧ _ ↦ hnot hboth.2] at hsame
      cases hsame
    · intro h entry hmem
      obtain ⟨host, hformed⟩ := hdoc.2 entry hmem
      obtain ⟨ep, hkeep, hall⟩ := hentry entry hmem host hformed
      rw [hkeep, hall]
      by_cases hin : guard._host_in_scope host = true
      · rw [if_pos hin, if_pos ⟨hin, h entry hmem host hformed hin⟩]
      · rw [if_neg hin, if_neg fun hboth : _ ∧ _ ↦ hin hboth.1]
  · intro entry hmem
    obtain ⟨host, hformed⟩ := hdoc.2 entry hmem
    obtain ⟨ep, hkeep, hall⟩ := hentry entry hmem host hformed
    rw [hkeep, hall]
    by_cases hin : guard._host_in_scope host = true
    · by_cases hlisted : host ∈ guard.record.allowed_hosts
      · exact Or.inr (by rw [if_pos ⟨hin, hlisted⟩, if_pos hin])
      · exact Or.inl (if_neg fun hboth : _ ∧ _ ↦ hlisted hboth.2)
    · exact Or.inl (if_neg fun hboth : _ ∧ _ ↦ hin hboth.1)

end

section

attribute [local instance] asciiTables asciiDigits

/-- A loader that knows JSON only. -/
@[reducible] def jsonOnly : DocumentLibrary where
  safe_load _ := .error "no document".toList

attribute [local instance] jsonOnly

/-- A logged request without parameters. -/
def loggedRequest : Dict := Dict.recipe [("method", Json.text "GET"),
  ("url", Json.text "https://api.app.example/users"), ("queryString", .arr []), ("headers", .arr [])]

def loggedEntries : List Json := [.obj (Dict.recipe [("request", .obj loggedRequest)])]

def sampleLog : Content :=
  .document (.obj (Dict.recipe [("log", .obj (Dict.recipe [("entries", .arr loggedEntries)]))]))

theorem loggedEntry_wellFormed :
    ∀ entry ∈ loggedEntries, WellFormedEntry entry "api.app.example".toList := by
  intro entry hentry
  obtain rfl := List.mem_singleton.1 hentry
  have hsplit : Url.urlsplit "https://api.app.example/users".toList = .ok ⟨"https".toList,
      "api.app.example".toList, "/users".toList, [], []⟩ := by decide +kernel
  refine ⟨_, loggedRequest, "https://api.app.example/users".toList, rfl, rfl, ?_, ?_⟩
  · refine ⟨⟨_, rfl⟩, rfl, by decide, fun _ _ ↦ ⟨_, hsplit, fun _ _ ↦ ⟨none, by decide +kernel⟩⟩,
      ⟨_, hsplit⟩, ⟨[], rfl, by rintro _ ⟨⟩⟩, ⟨[], rfl, by rintro _ ⟨⟩⟩, by rintro _ ⟨⟩⟩
  · rw [_host, hsplit]
    show Except.ok _ = _
    exact congrArg Except.ok (by decide +kernel)

theorem sampleLog_document : HarDocument sampleLog loggedEntries :=
  ⟨⟨_, _, rfl, rfl, rfl⟩, fun entry hentry ↦ ⟨_, loggedEntry_wellFormed entry hentry⟩⟩

/-- A record with the logged host. -/
def listedGuard : ScopeGuard :=
  { record := { sampleRecord with allowed_hosts := ["api.app.example".toList] } }

theorem listed_agrees : ∃ warnings,
    keep_in_scope listedGuard ((parse_har sampleLog listedGuard.record.allowed_hosts).endpoints.map
      (·, sampleAnswer)) = .ok (loggedEntries.filterMap (harInScope listedGuard), warnings) := by
  refine (har_agrees_iff sampleLog_document ?_ ?_).2 ?_
  · rw [List.map_map]
    exact List.map_id _
  · intro x hx
    obtain ⟨ep, -, rfl⟩ := List.mem_map.1 hx
    rintro ⟨message, ⟨⟩⟩
  · intro entry hentry host hformed _
    rw [hformed.unique (loggedEntry_wellFormed entry hentry)]
    exact List.mem_singleton.2 rfl

/-- A record with a wildcard for it. -/
def wildcardGuard : ScopeGuard :=
  { record := { sampleRecord with allowed_hosts := ["*.app.example".toList] } }

/-- The guard admits the logged host, and the parser leaves its traffic out. -/
theorem wildcard_traffic_lost :
    ¬ ∀ (guard : ScopeGuard) (content : Content) (entries : List Json)
      (asked : List (DiscoveredEndpoint × DnsAnswer)), HarDocument content entries →
        asked.map Prod.fst = (parse_har content guard.record.allowed_hosts).endpoints →
        (∀ x ∈ asked, ¬∃ message, x.2 = .unicodeError message) →
        ∃ warnings, keep_in_scope guard asked = .ok (entries.filterMap (harInScope guard), warnings) := by
  intro h
  obtain ⟨ep, hread, hhost, -, -⟩ := harEntry_eq (loggedEntry_wellFormed _ List.mem_cons_self)
  have hnone : (parse_har sampleLog wildcardGuard.record.allowed_hosts).endpoints = [] := by
    rw [parse_har_endpoints sampleLog_document, loggedEntries, List.filterMap_cons, hread]
    rfl
  obtain ⟨warnings, hkept⟩ := h wildcardGuard sampleLog loggedEntries [] sampleLog_document
    (by rw [hnone]; rfl) (by rintro _ ⟨⟩)
  have hempty : ([] : List DiscoveredEndpoint) = loggedEntries.filterMap (harInScope wildcardGuard) :=
    congrArg Prod.fst (Except.ok.inj hkept)
  have hin : harInScope wildcardGuard (.obj (Dict.recipe [("request", .obj loggedRequest)])) = some ep := by
    rw [harInScope, hread]
    show Option.filter (hostInScope wildcardGuard) (some ep) = some ep
    rw [Option.filter_some, hostInScope, hhost]
    exact if_pos (by decide +kernel)
  rw [loggedEntries, List.filterMap_cons, hin] at hempty
  cases hempty

end

end Discovery

end Sentrik
