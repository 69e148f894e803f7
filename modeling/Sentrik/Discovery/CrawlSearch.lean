import Sentrik.Discovery.Crawler
import Sentrik.Library.BreadthFirst

/-!
# What the crawler fetches

The crawler is the breadth-first search of the pages' links (`crawlFrom_run`): it asks for what the search
visits, up to the first page that ends it, and returns exactly if there is none. A page ends it if its GET
raises something the loop does not catch, or if a form action or a link of it cannot be joined or split
(`Tame`).

What is fetched once and how far away follows from the search (`crawl_searches`); which sites the crawler
survives is the condition itself (`crawl_survives_iff`).
-/

namespace Sentrik

open Interaction (trace eval)

namespace Discovery

section

variable [u : UnicodeTables]

/-! ### The site as a graph -/

/-- The call for a page. -/
def getPage (url : Text) : Query := { url := .str url }

/-- What tells two pages apart. -/
def key (url : Text) : Option Text := (_normalize url).toOption

def isHttp (url : Text) : Bool :=
  Text.startswith url "http://".toList || Text.startswith url "https://".toList

/-- Where a link leads, if it stays on the host. -/
def sameHostLink (seed_host url href : Text) : Option Text :=
  match joined url href with
  | .ok nxt => if isHttp nxt ∧ (_host nxt).toOption = some seed_host then some nxt else none
  | .error _ => none

/-- The link joins, and splits if it is one to a page. -/
def GoodLink (url href : Text) : Prop :=
  ∃ nxt, joined url href = .ok nxt ∧ (isHttp nxt → Splittable nxt)

variable [w : WordTables]

/-- The same-host links of a page that is fetched and is HTML. -/
def pageLinks (site : Query → Answer) (seed_host url : Text) : List Text :=
  match site (getPage url) with
  | .ok resp =>
    if isHtml resp then (Regex.findall _HREF resp.text).filterMap (sameHostLink seed_host url) else []
  | .error _ => []

/-! ### Pages that do not end the search -/

/-- The loop goes on after this answer. -/
def Handled : Answer → Prop
  | .ok _ => True
  | .error (.client (.ScopeViolation ..)) => True
  | .error (.client (.TargetUnreachable _)) => True
  | .error _ => False

/-- The action of the form, if it has one, joins and splits. -/
def GoodForm (url form : Text) : Prop :=
  ∀ value, Regex.search _FORM_ACTION form = some value →
    ∃ action, joined url value = .ok action ∧ Splittable action

/-- The page does not end the search. -/
structure Tame (site : Query → Answer) (max_depth : ℤ) (e : Text × ℕ) : Prop where
  handled : Handled (site (getPage e.1))
  forms : ∀ resp, site (getPage e.1) = .ok resp → isHtml resp →
    ∀ form ∈ Regex.findall _FORM resp.text, GoodForm e.1 form
  links : ∀ resp, site (getPage e.1) = .ok resp → isHtml resp → (e.2 : ℤ) < max_depth →
    ∀ href ∈ Regex.findall _HREF resp.text, GoodLink e.1 href

omit u w in
theorem handled_iff {answer : Answer} : Handled answer ↔ (∃ resp, answer = .ok resp) ∨
    (∃ reason code details, answer = .error (.client (.ScopeViolation reason code details))) ∨
    ∃ message, answer = .error (.client (.TargetUnreachable message)) := by
  constructor
  · intro h
    cases answer with
    | ok resp => exact .inl ⟨resp, rfl⟩
    | error exc =>
      cases exc with
      | client exc =>
        cases exc with
        | ScopeViolation reason code details => exact .inr (.inl ⟨reason, code, details, rfl⟩)
        | TargetUnreachable message => exact .inr (.inr ⟨message, rfl⟩)
        | _ => exact h.elim
      | _ => exact h.elim
  · rintro (⟨resp, rfl⟩ | ⟨reason, code, details, rfl⟩ | ⟨message, rfl⟩) <;> trivial

/-! ### Splitting -/

omit w in
theorem normalize_returns_iff {url : Text} : (∃ norm, _normalize url = .ok norm) ↔ Splittable url := by
  rw [_normalize, Splittable]
  cases Url.urlsplit url with
  | ok parts => exact iff_of_true ⟨_, rfl⟩ ⟨parts, rfl⟩
  | error message => exact iff_of_false (by rintro ⟨_, ⟨⟩⟩) (by rintro ⟨_, ⟨⟩⟩)

omit w in
theorem key_eq_some_iff {url norm : Text} : key url = some norm ↔ _normalize url = .ok norm := by
  rw [key]
  cases _normalize url with
  | ok norm' =>
    show some norm' = some norm ↔ _
    rw [Option.some_inj, Except.ok.injEq]
  | error exc => exact iff_of_false (fun h ↦ by cases h) fun h ↦ by cases h

variable [d : DigitTables]

omit w in
/-- An endpoint with a URL that splits is built. -/
theorem DiscoveredEndpoint.post_init_of_splittable (ep : DiscoveredEndpoint) (h : Splittable ep.url) :
    ∃ row, DiscoveredEndpoint.post_init ep = .ok row ∧ row.url = ep.url ∧
      row.method = u.upper (if ep.method = [] then "GET".toList else ep.method) ∧
      row.parameters = ep.parameters := by
  obtain ⟨parts, hparts⟩ := h
  rw [DiscoveredEndpoint.post_init, hparts]
  by_cases htemplate : ep.path_template = [] <;> by_cases hversion : ep.api_version = [] <;>
    simp only [htemplate, hversion, if_true, if_false] <;> exact ⟨_, rfl, rfl, rfl, rfl⟩

/-! ### One page -/

/-- The endpoint of a form, once it is known where the form leads. -/
def formRow (seed_host form_html action : Text) : Except Raised (Option DiscoveredEndpoint) := do
  let method := u.upper ((Regex.search _FORM_METHOD form_html).getD "GET".toList)
  if (← _host action) ≠ seed_host then return none
  else
    let names := Regex.findall _INPUT form_html
    return some (← DiscoveredEndpoint.post_init {
      method
      url := action
      provenance := .CRAWL
      parameters := names.map (formParam method) })

theorem formEndpoint_eq (seed_host url form_html : Text) :
    formEndpoint seed_host url form_html =
      (match Regex.search _FORM_ACTION form_html with
        | some value => joined url value
        | none => pure url) >>= formRow seed_host form_html := by
  rw [formEndpoint]
  cases Regex.search _FORM_ACTION form_html <;> rfl

theorem formRow_returns_iff {seed_host form_html action : Text} :
    (∃ row, formRow seed_host form_html action = .ok row) ↔ Splittable action := by
  rw [formRow, ← host_returns_iff]
  cases hhost : _host action with
  | error exc => exact iff_of_false (fun ⟨_, h⟩ ↦ by cases h) fun ⟨_, h⟩ ↦ by cases h
  | ok host =>
    refine iff_of_true ?_ ⟨host, rfl⟩
    have hsplit : Splittable action := host_returns_iff.1 ⟨host, hhost⟩
    by_cases hsame : host = seed_host
    · obtain ⟨row, hrow, -⟩ := DiscoveredEndpoint.post_init_of_splittable
        {
          method := u.upper ((Regex.search _FORM_METHOD form_html).getD "GET".toList)
          url := action
          provenance := .CRAWL
          parameters := (Regex.findall _INPUT form_html).map
            (formParam (u.upper ((Regex.search _FORM_METHOD form_html).getD "GET".toList))) } hsplit
      refine ⟨some row, ?_⟩
      simp only [hsame, bind, Except.bind, ne_eq, not_true_eq_false, if_false, hrow]
      rfl
    · refine ⟨none, ?_⟩
      simp only [hsame, bind, Except.bind, ne_eq, not_false_eq_true, if_true]
      rfl

/-- A form is read exactly if its action is good. -/
theorem formEndpoint_returns_iff {seed_host url form_html : Text} (hurl : Splittable url) :
    (∃ row, formEndpoint seed_host url form_html = .ok row) ↔ GoodForm url form_html := by
  rw [formEndpoint_eq, GoodForm]
  cases Regex.search _FORM_ACTION form_html with
  | none => exact iff_of_true (formRow_returns_iff.2 hurl) nofun
  | some value =>
    have hall : (∀ v, some value = some v →
        ∃ action, joined url v = .ok action ∧ Splittable action) ↔
          ∃ action, joined url value = .ok action ∧ Splittable action :=
      ⟨fun h ↦ h value rfl, fun h v hv ↦ Option.some.inj hv ▸ h⟩
    rw [hall]
    show (∃ row, joined url value >>= formRow seed_host form_html = .ok row) ↔ _
    cases joined url value with
    | error exc => exact iff_of_false (fun ⟨_, h⟩ ↦ by cases h) fun ⟨_, h, _⟩ ↦ by cases h
    | ok action =>
      show (∃ row, formRow seed_host form_html action = .ok row) ↔ _
      rw [formRow_returns_iff]
      constructor
      · exact fun h ↦ ⟨action, rfl, h⟩
      · rintro ⟨action', haction, hsplit⟩
        rwa [Except.ok.inj haction]

omit w d in
/-- A good link gives the entry of its URL, if that is to be queued. -/
theorem linkEntries_eq {url href : Text} (seed_host : Text) (depth : ℕ) (seen : List Text)
    (h : GoodLink url href) :
    linkEntries seed_host url depth seen href =
      .ok (((sameHostLink seed_host url href).toList.filter fun nxt ↦ key nxt ∉ seen.map some).map
        fun nxt ↦ (nxt, depth + 1)) := by
  obtain ⟨nxt, hnxt, hsplits⟩ := h
  rw [linkEntries, sameHostLink, hnxt]
  show (if ¬isHttp nxt = true then .ok [] else _host nxt >>= fun host ↦
      if host ≠ seed_host then .ok [] else _normalize nxt >>= fun norm ↦
        if norm ∈ seen then .ok [] else .ok [(nxt, depth + 1)]) =
    Except.ok (((if isHttp nxt = true ∧ (_host nxt).toOption = some seed_host then some nxt
      else none).toList.filter fun nxt ↦ key nxt ∉ seen.map some).map fun nxt ↦ (nxt, depth + 1))
  by_cases hhttp : isHttp nxt = true
  · obtain ⟨host, hhost⟩ := host_returns_iff.2 (hsplits hhttp)
    obtain ⟨norm, hnorm⟩ := normalize_returns_iff.2 (hsplits hhttp)
    have hkey : key nxt ∈ seen.map some ↔ norm ∈ seen := by
      rw [key_eq_some_iff.2 hnorm, List.mem_map_of_injective (Option.some_injective _)]
    rw [if_neg (not_not.2 hhttp), hhost, hnorm]
    show (if host ≠ seed_host then .ok [] else if norm ∈ seen then .ok [] else .ok [(nxt, depth + 1)]) =
      Except.ok (((if isHttp nxt = true ∧ some host = some seed_host then some nxt
        else none).toList.filter fun nxt ↦ key nxt ∉ seen.map some).map fun nxt ↦ (nxt, depth + 1))
    by_cases hsame : host = seed_host
    · have hfollowed : isHttp nxt = true ∧ some host = some seed_host := ⟨hhttp, congrArg some hsame⟩
      rw [if_neg (not_not.2 hsame), if_pos hfollowed, Option.toList_some, List.filter_singleton]
      by_cases hknown : norm ∈ seen
      · rw [if_pos hknown, decide_eq_false (not_not.2 (hkey.2 hknown))]
        rfl
      · have hnew : key nxt ∉ seen.map some := fun h ↦ hknown (hkey.1 h)
        rw [if_neg hknown, decide_eq_true hnew]
        rfl
    · rw [if_pos hsame, if_neg fun h ↦ hsame (Option.some.inj h.2)]
      rfl
  · rw [if_pos hhttp, if_neg fun h ↦ hhttp h.1]
    rfl

omit w d in
/-- A link that is not good raises. -/
theorem linkEntries_returns_iff {seed_host url href : Text} {depth : ℕ} {seen : List Text} :
    (∃ entries, linkEntries seed_host url depth seen href = .ok entries) ↔ GoodLink url href := by
  refine ⟨fun ⟨entries, h⟩ ↦ ?_, fun h ↦ ⟨_, linkEntries_eq seed_host depth seen h⟩⟩
  rw [linkEntries] at h
  cases hnxt : joined url href with
  | error exc =>
    rw [hnxt] at h
    cases h
  | ok nxt =>
    refine ⟨nxt, hnxt, fun hhttp ↦ ?_⟩
    rw [hnxt] at h
    replace h : (if ¬isHttp nxt = true then .ok [] else _host nxt >>= fun host ↦
      if host ≠ seed_host then .ok [] else _normalize nxt >>= fun norm ↦
        if norm ∈ seen then .ok [] else .ok [(nxt, depth + 1)]) = Except.ok entries := h
    rw [if_neg (not_not.2 hhttp)] at h
    cases hhost : _host nxt with
    | error exc =>
      rw [hhost] at h
      cases h
    | ok host => exact host_returns_iff.1 ⟨host, hhost⟩

/-- The loops over the forms and the links of a page. -/
theorem visit_html {seed_host url : Text} {max_depth : ℤ} {depth : ℕ} {seen : List Text}
    {resp : GuardedResponse} {page : DiscoveredEndpoint} (hpage : pageEndpoint url = .ok page)
    (hhtml : isHtml resp = true) :
    visit seed_host max_depth url depth seen resp =
      (Regex.findall _FORM resp.text).mapM (formEndpoint seed_host url) >>= fun forms ↦
        (if (depth : ℤ) < max_depth then
          (Regex.findall _HREF resp.text).mapM (linkEntries seed_host url depth seen)
        else pure []) >>= fun entries ↦ .ok (page :: forms.filterMap id, entries.flatten) := by
  rw [visit, hpage]
  refine Eq.trans (if_neg (not_not.2 hhtml)) (bind_congr fun forms ↦ ?_)
  split <;> rfl

theorem visit_plain {seed_host url : Text} {max_depth : ℤ} {depth : ℕ} {seen : List Text}
    {resp : GuardedResponse} {page : DiscoveredEndpoint} (hpage : pageEndpoint url = .ok page)
    (hplain : ¬isHtml resp = true) :
    visit seed_host max_depth url depth seen resp = .ok ([page], []) := by
  rw [visit, hpage]
  exact if_pos hplain

omit w d in
/-- The loop over the links, which runs above the greatest depth only. -/
theorem mapM_links_returns_iff {seed_host url : Text} {max_depth : ℤ} {depth : ℕ} {seen hrefs : List Text} :
    (∃ es, (if (depth : ℤ) < max_depth then hrefs.mapM (linkEntries seed_host url depth seen)
      else pure []) = .ok es) ↔ ((depth : ℤ) < max_depth → ∀ href ∈ hrefs, GoodLink url href) := by
  by_cases hdepth : (depth : ℤ) < max_depth
  · rw [if_pos hdepth, imp_iff_right hdepth]
    exact mapM_isOk.trans (forall₂_congr fun href _ ↦ linkEntries_returns_iff)
  · rw [if_neg hdepth]
    exact iff_of_true ⟨[], rfl⟩ fun h ↦ absurd h hdepth

theorem visit_returns_iff {seed_host url : Text} {max_depth : ℤ} {depth : ℕ} {seen : List Text}
    {resp : GuardedResponse} (hurl : Splittable url) :
    (∃ r, visit seed_host max_depth url depth seen resp = .ok r) ↔
      (isHtml resp → ∀ form ∈ Regex.findall _FORM resp.text, GoodForm url form) ∧
      (isHtml resp → (depth : ℤ) < max_depth →
        ∀ href ∈ Regex.findall _HREF resp.text, GoodLink url href) := by
  obtain ⟨page, hpage, -⟩ := DiscoveredEndpoint.post_init_of_splittable
    { method := "GET".toList, url, provenance := .CRAWL } hurl
  by_cases hhtml : isHtml resp = true
  · have hforms : (∃ rows, (Regex.findall _FORM resp.text).mapM (formEndpoint seed_host url) = .ok rows) ↔
        ∀ form ∈ Regex.findall _FORM resp.text, GoodForm url form :=
      mapM_isOk.trans (forall₂_congr fun form _ ↦ formEndpoint_returns_iff hurl)
    rw [visit_html hpage hhtml, imp_iff_right hhtml, imp_iff_right hhtml, ← hforms,
      ← mapM_links_returns_iff]
    constructor
    · rintro ⟨r, hr⟩
      obtain ⟨rows, hrows, hrest⟩ := exists_of_bind_eq_ok hr
      obtain ⟨es, hes, -⟩ := exists_of_bind_eq_ok hrest
      exact ⟨⟨rows, hrows⟩, es, hes⟩
    · rintro ⟨⟨rows, hrows⟩, es, hes⟩
      rw [hrows]
      show ∃ r, _ >>= _ = Except.ok r
      rw [hes]
      exact ⟨_, rfl⟩
  · rw [visit_plain hpage hhtml]
    exact iff_of_true ⟨_, rfl⟩ ⟨fun h ↦ absurd h hhtml, fun h ↦ absurd h hhtml⟩

omit w d in
/-- The entries of all links are those that the search adds. -/
theorem flatten_linkEntries (seed_host url : Text) (depth : ℕ) (seen : List Text) (hrefs : List Text) :
    (hrefs.map fun href ↦ ((sameHostLink seed_host url href).toList.filter
        fun nxt ↦ key nxt ∉ seen.map some).map fun nxt ↦ (nxt, depth + 1)).flatten =
      ((hrefs.filterMap (sameHostLink seed_host url)).filter fun nxt ↦ key nxt ∉ seen.map some).map
        fun nxt ↦ (nxt, depth + 1) := by
  induction hrefs with
  | nil => rfl
  | cons href hrefs ih =>
    rw [List.map_cons, List.flatten_cons, ih]
    cases hlink : sameHostLink seed_host url href with
    | none => rw [List.filterMap_cons_none hlink, Option.toList_none, List.filter_nil, List.map_nil,
        List.nil_append]
    | some nxt =>
      rw [List.filterMap_cons_some hlink, Option.toList_some, ← List.map_append, ← List.filter_append,
        List.singleton_append]

omit w d in
theorem mapM_linkEntries {url : Text} (seed_host : Text) (depth : ℕ) (seen : List Text) {hrefs : List Text}
    (h : ∀ href ∈ hrefs, GoodLink url href) :
    hrefs.mapM (linkEntries seed_host url depth seen) =
      .ok (hrefs.map fun href ↦ ((sameHostLink seed_host url href).toList.filter
        fun nxt ↦ key nxt ∉ seen.map some).map fun nxt ↦ (nxt, depth + 1)) := by
  rw [mapM_eq_ok_iff, List.map_map]
  exact List.map_congr_left fun href hmem ↦ linkEntries_eq seed_host depth seen (h href hmem)

/-- There is an endpoint for a GET of the page. -/
def Reported (endpoints : List DiscoveredEndpoint) (url : Text) : Prop :=
  ∃ ep ∈ endpoints, ep.method = u.upper "GET".toList ∧ ep.url = url

/-- What a visit is good for: the endpoint of the page is there, and the queue gets what the breadth-first
search adds. -/
theorem visit_eq_ok {site : Query → Answer} {seed_host url : Text} {max_depth : ℤ} {depth : ℕ}
    {seen : List Text} {resp : GuardedResponse} {r : List DiscoveredEndpoint × List (Text × ℕ)}
    (hresp : site (getPage url) = .ok resp) (hurl : Splittable url)
    (h : visit seed_host max_depth url depth seen resp = .ok r) :
    r.2 = BreadthFirst.entries key (pageLinks site seed_host) max_depth (seen.map some) url depth ∧
      Reported r.1 url := by
  obtain ⟨-, hlinks⟩ := (visit_returns_iff hurl).1 ⟨r, h⟩
  obtain ⟨page, hpage, hpageurl, hmethod, -⟩ := DiscoveredEndpoint.post_init_of_splittable
    { method := "GET".toList, url, provenance := .CRAWL } hurl
  rw [BreadthFirst.entries, pageLinks, hresp]
  by_cases hhtml : isHtml resp = true
  · rw [visit_html hpage hhtml] at h
    obtain ⟨rows, -, hrest⟩ := exists_of_bind_eq_ok h
    obtain ⟨es, hes, hr⟩ := exists_of_bind_eq_ok hrest
    obtain rfl := Except.ok.inj hr
    refine ⟨?_, page, List.mem_cons_self, hmethod, hpageurl⟩
    show es.flatten = if (depth : ℤ) < max_depth then List.map _ (List.filter _ (if isHtml resp = true then
      (Regex.findall _HREF resp.text).filterMap (sameHostLink seed_host url) else [])) else []
    by_cases hdepth : (depth : ℤ) < max_depth
    · rw [if_pos hdepth] at hes ⊢
      rw [if_pos hhtml]
      rw [mapM_linkEntries seed_host depth seen (hlinks hhtml hdepth)] at hes
      rw [← Except.ok.inj hes, flatten_linkEntries]
      congr!
    · rw [if_neg hdepth] at hes ⊢
      rw [← Except.ok.inj hes]
      rfl
  · rw [visit_plain hpage hhtml] at h
    obtain rfl := Except.ok.inj h
    refine ⟨?_, page, List.mem_singleton_self _, hmethod, hpageurl⟩
    show [] = if (depth : ℤ) < max_depth then List.map _ (List.filter _ (if isHtml resp = true then
      (Regex.findall _HREF resp.text).filterMap (sameHostLink seed_host url) else [])) else []
    rw [if_neg hhtml, List.filter_nil, List.map_nil, ite_self]

/-! ### One round -/

omit w d in
/-- The next entry is the one of the search. -/
theorem next_eq (max_depth : ℤ) (seen : List Text) {queue : List (Text × ℕ)}
    (h : ∀ e ∈ queue, Splittable e.1) :
    next max_depth seen queue = .ok ((BreadthFirst.next key max_depth (seen.map some) queue).map
      fun x ↦ (x.1, (key x.1.1).getD [], x.2)) := by
  induction queue with
  | nil => rfl
  | cons e queue ih =>
    obtain ⟨url, depth⟩ := e
    obtain ⟨hurl, hqueue⟩ := List.forall_mem_cons.1 h
    obtain ⟨norm, hnorm⟩ := normalize_returns_iff.2 hurl
    have hkey : key url = some norm := key_eq_some_iff.2 hnorm
    have hseen : key url ∈ seen.map some ↔ norm ∈ seen := by
      rw [hkey, List.mem_map_of_injective (Option.some_injective _)]
    rw [next, BreadthFirst.next, hnorm]
    show (if norm ∈ seen ∨ (depth : ℤ) > max_depth then next max_depth seen queue
      else .ok (some ((url, depth), norm, queue))) = _
    by_cases hskip : norm ∈ seen ∨ (depth : ℤ) > max_depth
    · rw [if_pos hskip, if_pos (hskip.imp_left hseen.2), ih hqueue]
    · rw [if_neg hskip, if_neg (fun h ↦ hskip (h.imp_left hseen.1))]
      show _ = Except.ok (some ((url, depth), (key url).getD [], queue))
      rw [hkey]
      rfl

theorem crawlFrom_of_none {seed_host : Text} {max_depth : ℤ} {pages : ℕ} {seen : List Text}
    {queue : List (Text × ℕ)} {found : Found} (h : next max_depth seen queue = .ok none) :
    crawlFrom seed_host max_depth (pages + 1) seen queue found = pure found := by
  rw [crawlFrom, h]
  rfl

variable {site : Query → Answer} {seed_host : Text} {max_depth : ℤ} {pages : ℕ} {seen : List Text}
  {queue rest : List (Text × ℕ)} {found : Found} {url norm : Text} {depth : ℕ}

omit w d in
theorem host_of_sameHostLink {base href nxt : Text} (h : sameHostLink seed_host base href = some nxt) :
    _host nxt = .ok seed_host := by
  rw [sameHostLink] at h
  cases hnxt : joined base href with
  | error exc =>
    rw [hnxt] at h
    cases h
  | ok nxt' =>
    rw [hnxt] at h
    obtain ⟨⟨-, hhost⟩, hsame⟩ := Option.ite_none_right_eq_some.1 h
    obtain rfl := Option.some.inj hsame
    cases hnxt' : _host nxt' with
    | error exc =>
      rw [hnxt'] at hhost
      cases hhost
    | ok host =>
      rw [hnxt'] at hhost
      rw [Option.some.inj hhost]

omit w d in
/-- Links stay on the host. -/
theorem host_of_mem_pageLinks {nxt : Text} (h : nxt ∈ pageLinks site seed_host url) :
    _host nxt = .ok seed_host := by
  rw [pageLinks] at h
  cases hresp : site (getPage url) with
  | error exc =>
    rw [hresp] at h
    cases h
  | ok resp =>
    rw [hresp] at h
    replace h : nxt ∈ if isHtml resp = true then
      (Regex.findall _HREF resp.text).filterMap (sameHostLink seed_host url) else [] := h
    split at h
    next =>
      obtain ⟨href, -, hlink⟩ := List.mem_filterMap.1 h
      exact host_of_sameHostLink hlink
    next => cases h

omit w d in
/-- What is no page has no links. -/
theorem entries_of_error {exc : Raised} {keys : List (Option Text)}
    (h : site (getPage url) = .error exc) :
    BreadthFirst.entries key (pageLinks site seed_host) max_depth keys url depth = [] := by
  rw [BreadthFirst.entries, pageLinks, h, List.filter_nil, List.map_nil, ite_self]

/-- A round whose page does not end the search goes on as the breadth-first search does. -/
theorem round_of_tame (seed_host : Text) (pages : ℕ) (found : Found)
    (hnorm : _normalize url = .ok norm) (htame : Tame site max_depth (url, depth))
    (hnext : next max_depth seen queue = .ok (some ((url, depth), norm, rest))) :
    ∃ found',
      let go := crawlFrom seed_host max_depth pages (norm :: seen) (rest ++ BreadthFirst.entries key
        (pageLinks site seed_host) max_depth ((norm :: seen).map some) url depth) found'
      found.endpoints ⊆ found'.endpoints ∧
      (∀ resp, site (getPage url) = .ok resp → Reported found'.endpoints url) ∧
      eval site (crawlFrom seed_host max_depth (pages + 1) seen queue found).run = eval site go.run ∧
      trace site (crawlFrom seed_host max_depth (pages + 1) seen queue found).run =
        (getPage url, site (getPage url)) :: trace site go.run := by
  rw [crawlFrom, hnext, Interaction.ofExcept_ok_bind]
  simp only [Interaction.eval_attempt_bind, Interaction.trace_attempt_bind]
  have hurl : Splittable url := normalize_returns_iff.1 ⟨norm, hnorm⟩
  rcases handled_iff.1 htame.handled with ⟨resp, hresp⟩ | ⟨reason, code, details, hexc⟩ | ⟨message, hexc⟩
  · obtain ⟨⟨endpoints, entries⟩, hvisit⟩ :
        ∃ r, visit seed_host max_depth url depth (norm :: seen) resp = .ok r :=
      (visit_returns_iff hurl).2 ⟨htame.forms resp hresp, htame.links resp hresp⟩
    obtain ⟨rfl, ep, hep, hreports⟩ := visit_eq_ok hresp hurl hvisit
    refine ⟨{ found with endpoints := found.endpoints ++ endpoints }, List.subset_append_left _ _,
      fun _ _ ↦ ⟨ep, List.mem_append_right _ hep, hreports⟩, ?_⟩
    rw [getPage] at hresp ⊢
    simp only [hresp, hvisit, Interaction.ofExcept_ok_bind, and_self]
  · refine ⟨{ found with warnings := found.warnings ++ [s!"crawl blocked by scope: {reason}"] },
      List.Subset.refl _, fun resp hresp ↦ (by cases hexc.symm.trans hresp), ?_⟩
    rw [entries_of_error hexc, List.append_nil]
    rw [getPage] at hexc ⊢
    simp only [hexc, and_self]
  · refine ⟨{ found with
      warnings := found.warnings ++ [s!"crawl unreachable {String.ofList url}: {message}"] },
      List.Subset.refl _, fun resp hresp ↦ (by cases hexc.symm.trans hresp), ?_⟩
    rw [entries_of_error hexc, List.append_nil]
    rw [getPage] at hexc ⊢
    simp only [hexc, and_self]

/-- A round whose page ends the search raises after its call. -/
theorem round_of_not_tame (seed_host : Text) (pages : ℕ) (found : Found)
    (hnorm : _normalize url = .ok norm) (htame : ¬Tame site max_depth (url, depth))
    (hnext : next max_depth seen queue = .ok (some ((url, depth), norm, rest))) :
    (∃ exc, eval site (crawlFrom seed_host max_depth (pages + 1) seen queue found).run = .error exc) ∧
      trace site (crawlFrom seed_host max_depth (pages + 1) seen queue found).run =
        [(getPage url, site (getPage url))] := by
  rw [crawlFrom, hnext, Interaction.ofExcept_ok_bind]
  simp only [Interaction.eval_attempt_bind, Interaction.trace_attempt_bind]
  have hurl : Splittable url := normalize_returns_iff.1 ⟨norm, hnorm⟩
  cases hanswer : site (getPage url) with
  | ok resp =>
    have hvisit : ¬∃ r, visit seed_host max_depth url depth (norm :: seen) resp = .ok r := by
      intro h
      obtain ⟨hforms, hlinks⟩ := (visit_returns_iff hurl).1 h
      refine htame ⟨hanswer ▸ trivial, fun resp' hresp' ↦ ?_, fun resp' hresp' ↦ ?_⟩
      · rwa [Except.ok.inj (hresp'.symm.trans hanswer)]
      · rwa [Except.ok.inj (hresp'.symm.trans hanswer)]
    cases hr : visit seed_host max_depth url depth (norm :: seen) resp with
    | ok r => exact absurd ⟨r, hr⟩ hvisit
    | error exc =>
      rw [getPage] at hanswer ⊢
      simp only [hanswer, hr, Interaction.ofExcept_error_bind]
      exact ⟨⟨exc, rfl⟩, rfl⟩
  | error exc =>
    have hwild : ¬Handled (.error exc) := fun h ↦
      htame ⟨hanswer ▸ h, fun resp hresp ↦ (by cases hanswer.symm.trans hresp),
        fun resp hresp ↦ by cases hanswer.symm.trans hresp⟩
    rw [getPage] at hanswer ⊢
    cases exc with
    | client exc =>
      cases exc with
      | ScopeViolation reason code details => exact absurd trivial hwild
      | TargetUnreachable message => exact absurd trivial hwild
      | _ =>
        simp only [hanswer]
        exact ⟨⟨_, rfl⟩, rfl⟩
    | _ =>
      simp only [hanswer]
      exact ⟨⟨_, rfl⟩, rfl⟩

/-! ### The run -/

/-- The program asks for what was visited, up to the first page that ends it; it returns if there is none, and
then keeps the endpoints it had and reports each page it was given. -/
structure Follows (site : Query → Answer) (max_depth : ℤ) (endpoints : List DiscoveredEndpoint)
    (m : Program Found) (visits : List (Text × ℕ)) : Prop where
  asks : (trace site m.run).map Prod.fst <+: visits.map fun e ↦ getPage e.1
  returns_iff : (∃ found, eval site m.run = .ok found) ↔ ∀ e ∈ visits, Tame site max_depth e
  asks_all : ∀ found, eval site m.run = .ok found →
    (trace site m.run).map Prod.fst = visits.map fun e ↦ getPage e.1
  keeps : ∀ found, eval site m.run = .ok found → endpoints ⊆ found.endpoints
  reports : ∀ found, eval site m.run = .ok found →
    ∀ e ∈ visits, ∀ resp, site (getPage e.1) = .ok resp → Reported found.endpoints e.1

omit d in
theorem follows_pure : Follows site max_depth found.endpoints (pure found) [] where
  asks := List.prefix_rfl
  returns_iff := iff_of_true ⟨found, rfl⟩ nofun
  asks_all _ _ := rfl
  keeps found' h := by
    rw [Except.ok.inj (show Except.ok found = Except.ok found' from h)]
    exact List.Subset.refl _
  reports _ _ := nofun

/-- A page that does not end the search, and what comes behind it. -/
theorem Follows.of_tame {visits : List (Text × ℕ)} (hnorm : _normalize url = .ok norm)
    (htame : Tame site max_depth (url, depth))
    (hnext : next max_depth seen queue = .ok (some ((url, depth), norm, rest)))
    (hgo : ∀ found', Follows site max_depth found'.endpoints (crawlFrom seed_host max_depth pages
      (norm :: seen) (rest ++ BreadthFirst.entries key (pageLinks site seed_host) max_depth
        ((norm :: seen).map some) url depth) found') visits) :
    Follows site max_depth found.endpoints
      (crawlFrom seed_host max_depth (pages + 1) seen queue found) ((url, depth) :: visits) := by
  obtain ⟨found', hkeeps, hreports, heval, htrace⟩ := round_of_tame seed_host pages found hnorm
    htame hnext
  have h := hgo found'
  refine ⟨?_, ?_, ?_, ?_, ?_⟩
  · rw [htrace, List.map_cons, List.map_cons]
    exact (List.prefix_cons_inj _).2 h.asks
  · rw [heval, List.forall_mem_cons, and_iff_right htame]
    exact h.returns_iff
  · rw [heval, htrace, List.map_cons, List.map_cons]
    exact fun found'' hok ↦ congrArg _ (h.asks_all found'' hok)
  · rw [heval]
    exact fun found'' hok ↦ List.Subset.trans hkeeps (h.keeps found'' hok)
  · rw [heval]
    intro found'' hok
    refine List.forall_mem_cons.2 ⟨fun resp hresp ↦ ?_, h.reports found'' hok⟩
    obtain ⟨ep, hep, hurl⟩ := hreports resp hresp
    exact ⟨ep, h.keeps found'' hok hep, hurl⟩

/-- A page that ends the search. -/
theorem Follows.of_not_tame {visits : List (Text × ℕ)} (hnorm : _normalize url = .ok norm)
    (htame : ¬Tame site max_depth (url, depth))
    (hnext : next max_depth seen queue = .ok (some ((url, depth), norm, rest))) :
    Follows site max_depth found.endpoints
      (crawlFrom seed_host max_depth (pages + 1) seen queue found) ((url, depth) :: visits) := by
  obtain ⟨⟨exc, heval⟩, htrace⟩ := round_of_not_tame seed_host pages found hnorm htame hnext
  have hraises : ∀ found', eval site
      (crawlFrom seed_host max_depth (pages + 1) seen queue found).run ≠ .ok found' := by
    intro found' hok
    cases heval.symm.trans hok
  refine ⟨?_, iff_of_false (fun ⟨found', hok⟩ ↦ hraises found' hok) fun hall ↦
    htame (hall _ List.mem_cons_self), fun found' hok ↦ absurd hok (hraises found'),
    fun found' hok ↦ absurd hok (hraises found'), fun found' hok ↦ absurd hok (hraises found')⟩
  rw [htrace, List.map_cons]
  exact (List.prefix_cons_inj _).2 List.nil_prefix

/-- **The crawler is the breadth-first search** of the links. -/
theorem crawlFrom_follows (h : ∀ e ∈ queue, Splittable e.1) :
    Follows site max_depth found.endpoints (crawlFrom seed_host max_depth pages seen queue found)
      (BreadthFirst.search key (pageLinks site seed_host) max_depth pages (seen.map some) queue) := by
  induction pages generalizing seen queue found with
  | zero => exact follows_pure
  | succ pages ih =>
    have hnext := next_eq max_depth seen h
    rw [BreadthFirst.search]
    cases hbfs : BreadthFirst.next key max_depth (seen.map some) queue with
    | none =>
      rw [hbfs] at hnext
      rw [crawlFrom_of_none hnext]
      exact follows_pure
    | some x =>
      obtain ⟨⟨url, depth⟩, rest⟩ := x
      rw [hbfs] at hnext
      obtain ⟨hmem, hrest⟩ := BreadthFirst.mem_of_next hbfs
      obtain ⟨norm, hnorm⟩ := normalize_returns_iff.2 (h _ hmem)
      have hkey : key url = some norm := key_eq_some_iff.2 hnorm
      replace hnext : next max_depth seen queue = .ok (some ((url, depth), norm, rest)) := by
        rw [hnext]
        show Except.ok (some ((url, depth), (key url).getD [], rest)) = _
        rw [hkey]
        rfl
      show Follows site max_depth _ _ ((url, depth) :: BreadthFirst.search key
        (pageLinks site seed_host) max_depth pages (key url :: seen.map some) (rest ++
          BreadthFirst.entries key (pageLinks site seed_host) max_depth (key url :: seen.map some) url depth))
      rw [hkey, ← List.map_cons]
      by_cases htame : Tame site max_depth (url, depth)
      · refine .of_tame hnorm htame hnext fun found' ↦ ih fun e he ↦ ?_
        rcases List.mem_append.1 he with he | he
        · exact h e (hrest he)
        · obtain ⟨-, hlink, -⟩ := BreadthFirst.mem_entries.1 he
          exact host_returns_iff.1 ⟨seed_host, host_of_mem_pageLinks hlink⟩
      · exact .of_not_tame hnorm htame hnext

/-- The host of the seed. -/
def hostOf (url : Text) : Text := (_host url).toOption.getD []

/-- The pages of the site that the search visits, with their depths. -/
def pagesOf (site : Query → Answer) (seed_url : Text) (max_pages max_depth : ℤ) : List (Text × ℕ) :=
  BreadthFirst.search key (pageLinks site (hostOf seed_url)) max_depth max_pages.toNat [] [(seed_url, 0)]

variable {seed_url : Text} {max_pages : ℤ}

theorem crawl_follows (site : Query → Answer) (max_pages max_depth : ℤ) (h : Splittable seed_url) :
    Follows site max_depth [] (crawl seed_url max_pages max_depth) (pagesOf site seed_url max_pages max_depth) := by
  obtain ⟨host, hhost⟩ := host_returns_iff.2 h
  rw [crawl, hhost, Interaction.ofExcept_ok_bind, pagesOf, hostOf, hhost]
  have hqueue : ∀ e ∈ [(seed_url, 0)], Splittable e.1 := fun e he ↦ by
    rw [List.mem_singleton.1 he]
    exact h
  have hfollows : Follows site max_depth ({} : Found).endpoints
      (crawlFrom host max_depth max_pages.toNat [] [(seed_url, 0)] {})
      (BreadthFirst.search key (pageLinks site host) max_depth max_pages.toNat ([].map some)
        [(seed_url, 0)]) := crawlFrom_follows hqueue
  exact hfollows

theorem crawl_of_not_splittable (site : Query → Answer) (max_pages max_depth : ℤ)
    (h : ¬Splittable seed_url) :
    (∃ exc, eval site (crawl seed_url max_pages max_depth).run = .error exc) ∧
      trace site (crawl seed_url max_pages max_depth).run = [] := by
  rw [crawl]
  cases hhost : _host seed_url with
  | ok host => exact absurd (host_returns_iff.1 ⟨host, hhost⟩) h
  | error exc =>
    rw [Interaction.ofExcept_error_bind]
    exact ⟨⟨exc, rfl⟩, rfl⟩

/-! ### What is fetched -/

omit w d in
theorem key_eq_iff {url url' : Text} : key url = key url' ↔ _normalize url = _normalize url' := by
  rw [key, key, _normalize, _normalize]
  cases Url.urlsplit url <;> cases Url.urlsplit url' <;>
    simp [Except.mapError, bind, Except.bind, pure, Except.pure, Except.toOption]

omit w d in
theorem hostOf_of_walk {n : ℕ} (h : BreadthFirst.Walk (pageLinks site (hostOf seed_url)) seed_url n url) :
    hostOf url = hostOf seed_url := by
  cases h with
  | nil => rfl
  | snoc hwalk hlink =>
    rw [hostOf, host_of_mem_pageLinks hlink]
    rfl

omit w d in
theorem splittable_of_walk {n : ℕ} (hseed : Splittable seed_url)
    (h : BreadthFirst.Walk (pageLinks site (hostOf seed_url)) seed_url n url) : Splittable url := by
  cases h with
  | nil => exact hseed
  | snoc hwalk hlink => exact host_returns_iff.1 ⟨_, host_of_mem_pageLinks hlink⟩

omit w d in
theorem walk_of_mem_pagesOf {e : Text × ℕ} (h : e ∈ pagesOf site seed_url max_pages max_depth) :
    BreadthFirst.Walk (pageLinks site (hostOf seed_url)) seed_url e.2 e.1 ∧ (e.2 : ℤ) ≤ max_depth := by
  refine BreadthFirst.walk_of_search (s := seed_url) _ _ (fun e' he' ↦ ?_) e h
  rw [List.mem_singleton.1 he']
  exact .nil

/-- **The crawler is a bounded and complete breadth-first search**, whatever the site answers: there are at
most as many calls as pages are allowed, no two for one normalized URL, all on the host of the seed and within
the depth. A site without pages that end the search is searched to its end; and when a search ends before its
bound, each normalized URL that links within the depth lead to was fetched, if the links of a page depend on
its normalized URL only. -/
theorem crawl_searches (site : Query → Answer) (seed_url : Text) (max_pages max_depth : ℤ) :
    ∃ urls : List Text,
      (trace site (crawl seed_url max_pages max_depth).run).map Prod.fst = urls.map getPage ∧
      (urls.length : ℤ) ≤ max max_pages 0 ∧
      urls.Pairwise (fun url url' ↦ _normalize url ≠ _normalize url') ∧
      (∀ url ∈ urls, hostOf url = hostOf seed_url ∧ ∃ n : ℕ, (n : ℤ) ≤ max_depth ∧
        BreadthFirst.Walk (pageLinks site (hostOf seed_url)) seed_url n url) ∧
      (Splittable seed_url → (∀ e, Splittable e.1 → Tame site max_depth e) →
        ∃ found, eval site (crawl seed_url max_pages max_depth).run = .ok found) ∧
      ∀ found, eval site (crawl seed_url max_pages max_depth).run = .ok found →
        (urls.length : ℤ) < max_pages →
        (∀ url url', _normalize url = _normalize url' →
          pageLinks site (hostOf seed_url) url = pageLinks site (hostOf seed_url) url') →
        ∀ (n : ℕ) (norm : Text), (n : ℤ) ≤ max_depth →
          BreadthFirst.KeyWalk key (pageLinks site (hostOf seed_url)) seed_url n (some norm) →
          ∃ url ∈ urls, _normalize url = .ok norm := by
  by_cases hseed : Splittable seed_url
  case neg =>
    obtain ⟨⟨exc, hraises⟩, htrace⟩ := crawl_of_not_splittable site max_pages max_depth hseed
    refine ⟨[], ?_, le_max_right _ _, .nil, nofun, fun h ↦ absurd h hseed, fun found hok ↦ ?_⟩
    · rw [htrace]
      rfl
    · cases hraises.symm.trans hok
  have hfollows := crawl_follows site max_pages max_depth hseed
  obtain ⟨rest, hprefix⟩ := hfollows.asks
  obtain ⟨fetched, more, hvisits, hfetched, -⟩ := List.map_eq_append_iff.1 hprefix.symm
  have hsub : fetched.Sublist (pagesOf site seed_url max_pages max_depth) := by
    rw [hvisits]
    exact List.sublist_append_left _ _
  have hbound : (pagesOf site seed_url max_pages max_depth).length ≤ max_pages.toNat :=
    BreadthFirst.length_search _ _ _
  refine ⟨fetched.map Prod.fst, ?_, ?_, ?_, ?_, ?_, ?_⟩
  · rw [← hfetched, List.map_map]
    rfl
  · have hle := hsub.length_le.trans hbound
    rw [List.length_map]
    omega
  · rw [List.pairwise_map]
    have hnodup : ((pagesOf site seed_url max_pages max_depth).map fun e ↦ key e.1).Nodup :=
      (BreadthFirst.nodup_search max_pages.toNat [] [(seed_url, 0)]).1
    exact ((List.pairwise_map.1 hnodup).sublist hsub).imp fun hne heq ↦ hne (key_eq_iff.2 heq)
  · intro url hurl
    obtain ⟨e, he, rfl⟩ := List.mem_map.1 hurl
    obtain ⟨hwalk, hdepth⟩ := walk_of_mem_pagesOf (hsub.subset he)
    exact ⟨hostOf_of_walk hwalk, e.2, hdepth, hwalk⟩
  · intro _ hsite
    refine hfollows.returns_iff.2 fun e he ↦ hsite e ?_
    exact splittable_of_walk hseed (walk_of_mem_pagesOf he).1
  · intro found hok hlt hlinks n norm hn hwalk
    have hall : fetched.map (fun e ↦ getPage e.1) =
        (pagesOf site seed_url max_pages max_depth).map fun e ↦ getPage e.1 :=
      hfetched.trans (hfollows.asks_all found hok)
    have hlength : fetched.length = (pagesOf site seed_url max_pages max_depth).length := by
      rw [← List.length_map (f := fun e : Text × ℕ ↦ getPage e.1), hall, List.length_map]
    have heq : fetched = pagesOf site seed_url max_pages max_depth := hsub.eq_of_length hlength
    have hstops : (pagesOf site seed_url max_pages max_depth).length < max_pages.toNat := by
      rw [List.length_map] at hlt
      omega
    have hmem := BreadthFirst.search_complete (fun v v' hkey z hz ↦
      ⟨z, hlinks v v' (key_eq_iff.1 hkey) ▸ hz, rfl⟩) hstops hwalk hn
    obtain ⟨e, he, hkey⟩ := List.mem_map.1 hmem
    exact ⟨e.1, List.mem_map.2 ⟨e, heq ▸ he, rfl⟩, key_eq_some_iff.1 hkey⟩

/-! ### What is survived -/

/-- **Which sites the crawler survives**, in terms of the breadth-first search of the site: it returns, with a
GET endpoint for each page it was given, exactly if the seed splits and no page that is visited ends the
search. No URL is asked for twice, so a site stands for any sequence of answers. -/
theorem crawl_survives_iff (site : Query → Answer) (seed_url : Text) (max_pages max_depth : ℤ) :
    (∃ found, eval site (crawl seed_url max_pages max_depth).run = .ok found ∧
      ∀ url resp, (getPage url, .ok resp) ∈ trace site (crawl seed_url max_pages max_depth).run →
        Reported found.endpoints url) ↔
      Splittable seed_url ∧ ∀ e ∈ pagesOf site seed_url max_pages max_depth, Tame site max_depth e := by
  by_cases hseed : Splittable seed_url
  case neg =>
    obtain ⟨⟨exc, hraises⟩, -⟩ := crawl_of_not_splittable site max_pages max_depth hseed
    refine iff_of_false (fun ⟨found, hok, _⟩ ↦ ?_) fun h ↦ hseed h.1
    cases hraises.symm.trans hok
  have hfollows := crawl_follows site max_pages max_depth hseed
  rw [and_iff_right hseed, ← hfollows.returns_iff]
  constructor
  · exact fun ⟨found, hok, _⟩ ↦ ⟨found, hok⟩
  · rintro ⟨found, hok⟩
    refine ⟨found, hok, fun url resp hmem ↦ ?_⟩
    have hresp : .ok resp = site (getPage url) := Interaction.answeredBy_trace site _ _ hmem
    have hasked : getPage url ∈ (pagesOf site seed_url max_pages max_depth).map fun e ↦ getPage e.1 := by
      rw [← hfollows.asks_all found hok]
      exact List.mem_map.2 ⟨_, hmem, rfl⟩
    obtain ⟨e, he, hsame⟩ := List.mem_map.1 hasked
    have hurl : e.1 = url := Json.str.inj (congrArg Query.url hsame)
    rw [← hurl] at hresp ⊢
    exact hfollows.reports found hok e he resp hresp.symm

end

section

attribute [local instance] asciiTables asciiWords asciiDigits

/-- A page with one link, to a URL whose bracket is never closed. -/
def hostilePage : GuardedResponse where
  status_code := 200
  headers := [("content-type".toList, "text/html".toList)]
  text := "<a href=\"http://[\">".toList
  url := "http://app.example/".toList
  request_method := "GET".toList
  request_headers := []
  request_body := none

/-- One page with such a link, and nothing is left of the crawl. -/
theorem crawl_raises : ¬∃ found,
    eval (fun _ ↦ .ok hostilePage) (crawl "http://app.example/".toList 25 3).run = .ok found := by
  have hseed : Splittable "http://app.example/".toList := ⟨_, rfl⟩
  have hfollows := crawl_follows (fun _ ↦ .ok hostilePage) 25 3 hseed
  rw [hfollows.returns_iff]
  intro hall
  have hfirst : ("http://app.example/".toList, 0) ∈
      pagesOf (fun _ ↦ .ok hostilePage) "http://app.example/".toList 25 3 := List.mem_cons_self
  have hlink : "http://[".toList ∈ Regex.findall _HREF hostilePage.text := by
    decide
  obtain ⟨nxt, hnxt, -⟩ := (hall _ hfirst).links hostilePage rfl (by decide) (by decide) _ hlink
  cases hnxt

end

end Discovery

end Sentrik
