import Sentrik.Core.Auth
import Sentrik.Discovery.Merge
import Sentrik.Library.Machine

/-!
# The inventory

Two paths fill the inventory of an assessment: traffic that an operator submits, entry by entry, and the
discovery phase of a run, which merges what it was given first. Both look only at whether the location of an
endpoint has a row, and add a row if it has none.

So a row says what the first source of its location said, or what the first discovery run with it merged.
`inventory_union_iff` says when that is the union of all that was ever reported.
-/

namespace Sentrik

namespace Discovery

/-! ### Rows -/

/-- A row of the inventory. -/
structure Endpoint extends EndpointRow where
  provenance : Provenance
  confidence : ℚ
  fingerprint : Text

/-- What a row says of its location. -/
def Endpoint.report (row : Endpoint) : Report where
  fingerprint := row.fingerprint
  parameters := row.parameters
  auth_required := row.auth_required
  roles := row.roles

/-- The row of an endpoint. -/
def DiscoveredEndpoint.row (ep : DiscoveredEndpoint) (fingerprint : Text) : Endpoint where
  method := ep.method
  url := ep.url
  path_template := ep.path_template
  parameters := ep.parameters
  request_body_schema := ep.request_body_schema
  auth_required := ep.auth_required
  roles := ep.roles
  api_version := ep.api_version
  provenance := ep.provenance
  confidence := ep.confidence
  fingerprint := fingerprint

/-! ### Building an endpoint -/

section

variable [d : DigitTables]

/-- The version a path has at this place: a segment of `v`, digits, and maybe a dot and digits. A path has no
line break, so the pattern ends at a slash or at the end. -/
def versionAt : Text → Option Text
  | '/' :: 'v' :: rest =>
    let major := rest.takeWhile d.isDecimal
    if major = [] then none
    else
      match rest.dropWhile d.isDecimal with
      | [] | '/' :: _ => some ('v' :: major)
      | '.' :: more =>
        let minor := more.takeWhile d.isDecimal
        match more.dropWhile d.isDecimal with
        | [] | '/' :: _ => if minor = [] then none else some ('v' :: major ++ '.' :: minor)
        | _ => none
      | _ => none
  | _ => none

/-- The first version in a path. -/
def _infer_version : Text → Text
  | [] => []
  | c :: rest => (versionAt (c :: rest)).getD (_infer_version rest)

variable [u : UnicodeTables]

/-- `__post_init__` -/
def DiscoveredEndpoint.post_init (ep : DiscoveredEndpoint) : Except Raised DiscoveredEndpoint := do
  let path_template ←
    if ep.path_template = [] then do
      let parts ← (Url.urlsplit ep.url).mapError fun _ ↦ .ValueError
      pure (templatize_path (if parts.path = [] then ['/'] else parts.path))
    else pure ep.path_template
  let api_version ←
    if ep.api_version = [] then do
      let parts ← (Url.urlsplit ep.url).mapError fun _ ↦ .ValueError
      pure (_infer_version parts.path)
    else pure ep.api_version
  return { ep with
    method := u.upper (if ep.method = [] then "GET".toList else ep.method)
    path_template
    api_version
    confidence := if ep.confidence = 1 / 2 then PROVENANCE_CONFIDENCE ep.provenance else ep.confidence }

/-! ### Traffic -/

/-- What is kept of a parameter of an observed exchange: one that is a dictionary and has a name. -/
def trafficParam : Json → Option Dict
  | .obj p =>
    if (Dict.get p "name").truthy then
      some (Dict.recipe [("name", Dict.getD p "name" (Json.text "")),
        ("in", Dict.getD p "in" (Json.text "query")), ("type", Json.text "string"),
        ("required", .bool false)])
    else none
  | _ => none

/-- What an entry comes to. -/
inductive Observed
  | empty
  | out_of_scope
  | endpoint (row : Endpoint)

/-- An entry, up to the look at what is there. The fingerprint is of the method as it was given. -/
def observe (guard : ScopeGuard) (entry : Json) : Except Raised Observed := do
  let entry ← entry.asDict
  let url := (entry.getD "url" (Json.text "")).toText
  let method := u.upper (entry.getD "method" (Json.text "GET")).toText
  if url = [] then return .empty
  let host ← _host url
  if !(guard.evaluate_new_asset host).allowed then return .out_of_scope
  let params ← ((entry.get "params").or (.arr [])).iter
  let de ← DiscoveredEndpoint.post_init {
    method, url
    provenance := .TRAFFIC
    parameters := params.filterMap trafficParam
    auth_required := (entry.get "auth").truthy }
  let fp ← endpoint_fingerprint method url de.path_template
  return .endpoint { de.row fp with request_body_schema := [], roles := [] }

/-- The rows, and what the reply counts. -/
structure Ingest where
  rows : List Endpoint
  added : ℕ := 0
  skipped_scope : ℕ := 0
  skipped_dup : ℕ := 0

def ingestOne (guard : ScopeGuard) (st : Ingest) (entry : Json) : Except Raised Ingest := do
  match ← observe guard entry with
  | .empty => return st
  | .out_of_scope => return { st with skipped_scope := st.skipped_scope + 1 }
  | .endpoint row =>
    if row.fingerprint ∈ st.rows.map (·.fingerprint) then
      return { st with skipped_dup := st.skipped_dup + 1 }
    else return { st with rows := st.rows ++ [row], added := st.added + 1 }

/-- A call is refused, or raises. -/
inductive IngestError
  | refused (e : HTTPException)
  | raised (exc : Raised)

/-- `POST /v1/assessments/{id}/traffic`, once the assessment and its record are loaded. -/
def ingest_traffic (rows : List Endpoint) (guard : ScopeGuard) (body : Dict) : Except IngestError Ingest :=
  match body.getD "entries" (.arr []) with
  | .arr (entry :: rest) =>
    (((entry :: rest).take 2000).foldlM (ingestOne guard) { rows }).mapError .raised
  | _ => .error (.refused { status_code := 422, detail := "'entries' must be a non-empty list" })

/-! ### Discovery -/

/-- Persist an endpoint, unless its location has a row: the rows, and those that were saved. -/
def persistOne (st : List Endpoint × List Endpoint) (ep : DiscoveredEndpoint) :
    Except Raised (List Endpoint × List Endpoint) := do
  let fp ← ep.fingerprint
  if fp ∈ st.1.map (·.fingerprint) then return st
  else return (st.1 ++ [ep.row fp], st.2 ++ [ep.row fp])

/-- The discovery phase, from what the parsers and the crawler found: the rows after it, and those it
saved. -/
def _phase_discovery [NumberTables] (rows : List Endpoint) (guard : ScopeGuard)
    (discovered : List (DiscoveredEndpoint × DnsAnswer)) :
    Except Raised (List Endpoint × List Endpoint) := do
  let (in_scope, _) ← keep_in_scope guard discovered
  let merged ← merge_endpoints in_scope
  merged.foldlM persistOne (rows, [])

/-! ### The system -/

/-- The rows of an assessment, and all that was reported in scope so far, which nothing reads but the
specification. -/
structure Inventory where
  rows : List Endpoint := []
  reports : List Report := []

inductive InventoryEvent
  | ingest (guard : ScopeGuard) (body : Dict)
  | discovery (guard : ScopeGuard) (discovered : List (DiscoveredEndpoint × DnsAnswer))

/-- The entries of a body. -/
def entriesOf (body : Dict) : List Json :=
  match body.getD "entries" (.arr []) with
  | .arr entries => entries
  | _ => []

omit u d in
def Observed.row? : Observed → Option Endpoint
  | .endpoint row => some row
  | .empty | .out_of_scope => none

/-- The rows that entries in scope come to. -/
def observedRows (guard : ScopeGuard) (entries : List Json) : List Endpoint :=
  entries.filterMap fun entry ↦ (observe guard entry).toOption.bind Observed.row?

/-- The host of an endpoint is in scope. -/
def inScope (guard : ScopeGuard) (ep : DiscoveredEndpoint) : Bool :=
  match _host ep.url with
  | .ok host => (guard.evaluate_new_asset host).allowed
  | .error _ => false

/-- **What is reported in scope**: by a submission, in any of its entries; by a discovery run, by any
endpoint. -/
def InventoryEvent.reported : InventoryEvent → List Report
  | .ingest guard body => (observedRows guard (entriesOf body)).map Endpoint.report
  | .discovery guard discovered => reportsOf ((discovered.map Prod.fst).filter (inScope guard))

variable [n : NumberTables]

namespace Inventory

/-- A call that is refused or raises leaves no state. -/
def step (inv : Inventory) (e : InventoryEvent) : Option Inventory :=
  match e with
  | .ingest guard body =>
    (ingest_traffic inv.rows guard body).toOption.map fun st ↦
      { rows := st.rows, reports := inv.reports ++ e.reported }
  | .discovery guard discovered =>
    (_phase_discovery inv.rows guard discovered).toOption.map fun st ↦
      { rows := st.1, reports := inv.reports ++ e.reported }

end Inventory

/-! ### The property -/

omit u d in
/-- **A row is the union of its sources.** -/
structure Report.IsUnion (row : Report) (sources : List Report) : Prop where
  keys : ∀ s ∈ sources, ∀ p ∈ s.parameters, ∃ q ∈ row.parameters, SameKey p q
  auth_required : row.auth_required = true ↔ ∃ s ∈ sources, s.auth_required = true
  roles : ∀ role, role ∈ row.roles ↔ ∃ s ∈ sources, role ∈ s.roles

namespace Inventory

omit u d in
/-- **Each location that was reported has exactly one row, and it is the union of its sources.** -/
def Unions (inv : Inventory) : Prop :=
  ∀ s ∈ inv.reports, ∃ row, inv.rows.filter (·.fingerprint = s.fingerprint) = [row] ∧
    row.report.IsUnion (inv.reports.filter (·.fingerprint = s.fingerprint))

/-- **The condition on a step**: a discovery run reports nothing of a location with a row that the row does
not have; a submission reports nothing that is not in the row of its location, or else in its own first entry
for it, among those that are read. -/
def AddsNothing (inv : Inventory) : InventoryEvent → Prop
  | .ingest guard body =>
    ∀ s ∈ observedRows guard (entriesOf body), ∃ row,
      Keyed.row Endpoint.fingerprint (inv.rows ++ observedRows guard ((entriesOf body).take 2000))
        s.fingerprint = some row ∧ row.report.Covers s.report
  | .discovery guard discovered =>
    ∀ s ∈ reportsOf ((discovered.map Prod.fst).filter (inScope guard)), ∀ row,
      Keyed.row Endpoint.fingerprint inv.rows s.fingerprint = some row → row.report.Covers s

/-! ### The invariant -/

omit u d n in
/-- One row for each location, and none that demands what no source of it does. -/
structure Inv (inv : Inventory) : Prop where
  nodup : (inv.rows.map (·.fingerprint)).Nodup
  within : ∀ row ∈ inv.rows, row.report.Within inv.reports

omit u d in
/-- Every report is covered by the row of its location. -/
def Known (inv : Inventory) : Prop :=
  ∀ s ∈ inv.reports, ∃ row, Keyed.row Endpoint.fingerprint inv.rows s.fingerprint = some row ∧
    row.report.Covers s

omit u d in
theorem unions_iff {inv : Inventory} (hI : inv.Inv) : inv.Unions ↔ inv.Known := by
  constructor
  · intro h s hs
    obtain ⟨row, hrow, hunion⟩ := h s hs
    have hfind : Keyed.row Endpoint.fingerprint inv.rows s.fingerprint = some row := by
      rw [Keyed.row, ← List.head?_filter, hrow, List.head?_cons]
    have hsource : s ∈ inv.reports.filter (·.fingerprint = s.fingerprint) :=
      List.mem_filter.2 ⟨hs, decide_eq_true rfl⟩
    refine ⟨row, hfind, hunion.keys s hsource, fun hauth ↦ ?_, fun role hrole ↦ ?_⟩
    · exact hunion.auth_required.2 ⟨s, hsource, hauth⟩
    · exact (hunion.roles role).2 ⟨s, hsource, hrole⟩
  · intro h s hs
    obtain ⟨row, hrow, -⟩ := h s hs
    have hkey : row.fingerprint = s.fingerprint := Keyed.key_of_row hrow
    have hwithin := hI.within row (Keyed.mem_of_row hrow)
    -- the row of this location is that of each of its sources
    have hcovers : ∀ t ∈ inv.reports.filter (·.fingerprint = s.fingerprint), row.report.Covers t := by
      intro t ht
      obtain ⟨hmem, hloc⟩ := List.mem_filter.1 ht
      obtain ⟨row', hrow', hcovers⟩ := h t hmem
      rw [of_decide_eq_true hloc, hrow] at hrow'
      exact Option.some.inj hrow' ▸ hcovers
    refine ⟨row, Keyed.filter_of_row hI.nodup hrow, fun t ht ↦ (hcovers t ht).keys, ?_, fun role ↦ ?_⟩
    · constructor
      · intro hauth
        obtain ⟨t, ht, hloc, hta⟩ := hwithin.auth_required hauth
        exact ⟨t, List.mem_filter.2 ⟨ht, decide_eq_true (hloc.trans hkey)⟩, hta⟩
      · rintro ⟨t, ht, hta⟩
        exact (hcovers t ht).auth_required hta
    · constructor
      · intro hrole
        obtain ⟨t, ht, hloc, htr⟩ := hwithin.roles role hrole
        exact ⟨t, List.mem_filter.2 ⟨ht, decide_eq_true (hloc.trans hkey)⟩, htr⟩
      · rintro ⟨t, ht, htr⟩
        exact (hcovers t ht).roles htr

end Inventory

/-! ### What the paths add -/

omit n in
theorem observedRows_append (guard : ScopeGuard) (entries entries' : List Json) :
    observedRows guard (entries ++ entries') = observedRows guard entries ++ observedRows guard entries' :=
  List.filterMap_append

omit n in
/-- An entry adds the row it comes to, unless its location has one. -/
theorem rows_of_ingestOne {guard : ScopeGuard} {st st' : Ingest} {entry : Json}
    (h : ingestOne guard st entry = .ok st') :
    st'.rows = Keyed.addAll Endpoint.fingerprint st.rows (observedRows guard [entry]) := by
  rw [ingestOne] at h
  cases hobserve : observe guard entry with
  | error exc =>
    rw [hobserve] at h
    cases h
  | ok o =>
    rw [hobserve] at h
    have hrows : observedRows guard [entry] = o.row?.toList := by
      rw [observedRows, List.filterMap_cons, hobserve]
      cases o <;> rfl
    rw [hrows]
    cases o with
    | empty => exact (congrArg Ingest.rows (Except.ok.inj h)).symm
    | out_of_scope => exact (congrArg Ingest.rows (Except.ok.inj h)).symm
    | endpoint row =>
      show st'.rows = Keyed.add Endpoint.fingerprint st.rows row
      simp only [bind, Except.bind] at h
      rw [Keyed.add]
      by_cases hmem : row.fingerprint ∈ st.rows.map Endpoint.fingerprint
      · rw [if_pos hmem] at h ⊢
        exact (congrArg Ingest.rows (Except.ok.inj h)).symm
      · rw [if_neg hmem] at h ⊢
        exact (congrArg Ingest.rows (Except.ok.inj h)).symm

omit n in
/-- **A submission offers the rows of its entries**, in their order. -/
theorem rows_of_ingest {guard : ScopeGuard} {st st' : Ingest} {entries : List Json}
    (h : entries.foldlM (ingestOne guard) st = .ok st') :
    st'.rows = Keyed.addAll Endpoint.fingerprint st.rows (observedRows guard entries) := by
  induction entries generalizing st with
  | nil =>
    rw [List.foldlM_nil] at h
    rw [← Except.ok.inj h]
    rfl
  | cons entry entries ih =>
    rw [List.foldlM_cons] at h
    cases hone : ingestOne guard st entry with
    | error exc =>
      rw [hone] at h
      cases h
    | ok st₁ =>
      rw [hone] at h
      have happend : observedRows guard (entry :: entries) =
          observedRows guard [entry] ++ observedRows guard entries := observedRows_append guard [entry] entries
      rw [ih h, rows_of_ingestOne hone, happend, Keyed.addAll_append]

omit n in
/-- A call that returns went through the entries. -/
theorem foldlM_of_ingest {rows : List Endpoint} {guard : ScopeGuard} {body : Dict} {st : Ingest}
    (h : ingest_traffic rows guard body = .ok st) :
    ((entriesOf body).take 2000).foldlM (ingestOne guard) { rows } = .ok st := by
  rw [ingest_traffic] at h
  rw [entriesOf]
  split at h
  next entry rest hentries =>
    rw [hentries]
    show ((entry :: rest).take 2000).foldlM (ingestOne guard) { rows } = .ok st
    cases hfold : ((entry :: rest).take 2000).foldlM (ingestOne guard) { rows } with
    | error exc =>
      rw [hfold] at h
      cases h
    | ok st₁ =>
      rw [hfold] at h
      rw [Except.ok.inj h]
  next => cases h

omit n in
/-- **A discovery run offers the rows of the merged endpoints.** -/
theorem rows_of_persist {st st' : List Endpoint × List Endpoint} {by_fp : List (Text × DiscoveredEndpoint)}
    (hfp : ∀ e ∈ by_fp, e.2.fingerprint = .ok e.1)
    (h : (by_fp.map Prod.snd).foldlM persistOne st = .ok st') :
    st'.1 = Keyed.addAll Endpoint.fingerprint st.1 (by_fp.map fun e ↦ e.2.row e.1) := by
  induction by_fp generalizing st with
  | nil =>
    rw [List.map_nil, List.foldlM_nil] at h
    rw [← Except.ok.inj h]
    rfl
  | cons e rest ih =>
    obtain ⟨he, hrest⟩ := List.forall_mem_cons.1 hfp
    have hone : ∃ st₁, persistOne st e.2 = .ok st₁ ∧
        st₁.1 = Keyed.add Endpoint.fingerprint st.1 (e.2.row e.1) := by
      rw [persistOne, he, Keyed.add]
      simp only [bind, Except.bind]
      by_cases hmem : e.1 ∈ st.1.map Endpoint.fingerprint
      · rw [if_pos hmem]
        exact ⟨_, rfl, (if_pos hmem).symm⟩
      · rw [if_neg hmem]
        exact ⟨_, rfl, (if_neg hmem).symm⟩
    obtain ⟨st₁, hst₁, hrows⟩ := hone
    rw [List.map_cons, List.foldlM_cons, hst₁] at h
    rw [ih hrest h, hrows, List.map_cons, Keyed.addAll_cons]

omit d n in
/-- What the phase keeps is what is in scope. -/
theorem kept_of_keep_in_scope {guard : ScopeGuard} {discovered : List (DiscoveredEndpoint × DnsAnswer)}
    {kept : List DiscoveredEndpoint} {warnings : List String}
    (h : keep_in_scope guard discovered = .ok (kept, warnings)) :
    kept = (discovered.map Prod.fst).filter (inScope guard) := by
  induction discovered generalizing kept warnings with
  | nil => exact (congrArg Prod.fst (Except.ok.inj h)).symm
  | cons x rest ih =>
    obtain ⟨ep, answer⟩ := x
    rw [keep_in_scope] at h
    cases hdecision : guard.check_request ep.method ep.url false answer with
    | error exc =>
      rw [hdecision] at h
      cases h
    | ok decision =>
      rw [hdecision] at h
      cases hhost : _host ep.url with
      | error exc =>
        rw [hhost] at h
        cases h
      | ok host =>
        rw [hhost] at h
        cases hrest : keep_in_scope guard rest with
        | error exc =>
          rw [hrest] at h
          cases h
        | ok kr =>
          rw [hrest] at h
          obtain ⟨kept', warnings'⟩ := kr
          have hkept := ih hrest
          have hscope : inScope guard ep = (guard.evaluate_new_asset host).allowed := by
            rw [inScope, hhost]
          rw [List.map_cons, List.filter_cons, hscope, ← hkept]
          simp only [Except.mapError, bind, Except.bind] at h
          by_cases hallowed : (guard.evaluate_new_asset host).allowed = true
          · rw [if_pos hallowed] at h ⊢
            exact (congrArg Prod.fst (Except.ok.inj h)).symm
          · rw [if_neg hallowed] at h ⊢
            split at h <;> exact (congrArg Prod.fst (Except.ok.inj h)).symm

namespace Inventory

/-- What a step offers, and how much of what it reports is covered then. -/
structure Offers (inv inv' : Inventory) (e : InventoryEvent) (candidates : List Endpoint) : Prop where
  rows : inv'.rows = Keyed.addAll Endpoint.fingerprint inv.rows candidates
  reports : inv'.reports = inv.reports ++ e.reported
  within : ∀ c ∈ candidates, c.report.Within e.reported
  known : (∀ s ∈ e.reported, ∃ row, Keyed.row Endpoint.fingerprint (inv.rows ++ candidates) s.fingerprint =
    some row ∧ row.report.Covers s) ↔ inv.AddsNothing e

theorem offers_ingest {inv inv' : Inventory} {guard : ScopeGuard} {body : Dict}
    (h : inv.step (.ingest guard body) = some inv') :
    inv.Offers inv' (.ingest guard body) (observedRows guard ((entriesOf body).take 2000)) := by
  obtain ⟨st, hst, rfl⟩ := Option.map_eq_some_iff.1 h
  refine ⟨?_, rfl, fun c hc ↦ ?_, List.forall_mem_map⟩
  · cases hingest : ingest_traffic inv.rows guard body with
    | error e =>
      rw [hingest] at hst
      cases hst
    | ok st₁ =>
      rw [hingest] at hst
      obtain rfl := Option.some.inj hst
      exact rows_of_ingest (foldlM_of_ingest hingest)
  · refine Report.within_of_mem (List.mem_map_of_mem ?_)
    obtain ⟨entry, hentry, hrow⟩ := List.mem_filterMap.1 hc
    exact List.mem_filterMap.2 ⟨entry, List.mem_of_mem_take hentry, hrow⟩

theorem offers_discovery {inv inv' : Inventory} {guard : ScopeGuard}
    {discovered : List (DiscoveredEndpoint × DnsAnswer)}
    (h : inv.step (.discovery guard discovered) = some inv') :
    ∃ candidates, inv.Offers inv' (.discovery guard discovered) candidates := by
  obtain ⟨st, hst, rfl⟩ := Option.map_eq_some_iff.1 h
  rw [_phase_discovery] at hst
  cases hkeep : keep_in_scope guard discovered with
  | error exc =>
    rw [hkeep] at hst
    cases hst
  | ok kw =>
    rw [hkeep] at hst
    obtain ⟨kept, warnings⟩ := kw
    have hkept := kept_of_keep_in_scope hkeep
    cases hmerge : merge_endpoints kept with
    | error exc =>
      simp only [bind, Except.bind, hmerge] at hst
      cases hst
    | ok ms =>
      obtain ⟨by_fp, rfl, hmerged⟩ := merged_of_merge_endpoints hmerge
      simp only [bind, Except.bind, hmerge] at hst
      cases hpersist : (by_fp.map Prod.snd).foldlM persistOne (inv.rows, []) with
      | error exc =>
        rw [hpersist] at hst
        cases hst
      | ok st₁ =>
        rw [hpersist] at hst
        obtain rfl := Option.some.inj hst
        have hreported : (InventoryEvent.discovery guard discovered).reported = reportsOf kept := by
          rw [InventoryEvent.reported, hkept]
        refine ⟨by_fp.map fun e ↦ e.2.row e.1, rows_of_persist hmerged.fingerprint hpersist, rfl,
          fun c hc ↦ ?_, ?_⟩
        · obtain ⟨e, he, rfl⟩ := List.mem_map.1 hc
          rw [hreported]
          exact hmerged.within e he
        · rw [AddsNothing, ← hkept, hreported]
          refine forall_congr' fun s ↦ forall_congr' fun hs ↦ ?_
          rw [Keyed.row_append]
          cases hrow : Keyed.row Endpoint.fingerprint inv.rows s.fingerprint with
          | some row => simp
          | none =>
            -- the merged endpoint of a new location covers its sources
            obtain ⟨e, he, hcovers⟩ := hmerged.covers s hs
            have hkey : ∀ e : Text × DiscoveredEndpoint, (e.2.row e.1).fingerprint = Prod.fst e :=
              fun _ ↦ rfl
            have hfound : Keyed.row Endpoint.fingerprint (by_fp.map fun e ↦ e.2.row e.1) s.fingerprint =
                some (e.2.row e.1) := by
              rw [Keyed.row_map hkey, he, Option.map_some]
            rw [Option.none_or, hfound]
            exact iff_of_true ⟨_, rfl, hcovers⟩ fun _ hnone ↦ by cases hnone

theorem offers_of_step {inv inv' : Inventory} {e : InventoryEvent} (h : inv.step e = some inv') :
    ∃ candidates, inv.Offers inv' e candidates := by
  cases e with
  | ingest guard body => exact ⟨_, offers_ingest h⟩
  | discovery guard discovered => exact offers_discovery h

/-! ### Steps and runs -/

/-- Every step keeps the invariant. -/
theorem Inv.of_step {inv inv' : Inventory} {e : InventoryEvent} (hI : inv.Inv)
    (h : inv.step e = some inv') : inv'.Inv := by
  obtain ⟨candidates, ho⟩ := offers_of_step h
  constructor
  · rw [ho.rows]
    exact Keyed.nodup_addAll hI.nodup candidates
  · intro row hrow
    rw [ho.rows] at hrow
    rw [ho.reports]
    rcases Keyed.mem_addAll hrow with hold | hnew
    · exact (hI.within row hold).mono (List.subset_append_left _ _)
    · exact (ho.within row hnew).mono (List.subset_append_right _ _)

/-- **The step lemma**: what was known stays known, and what is reported is known exactly if the step meets
the condition. -/
theorem known_iff {inv inv' : Inventory} {e : InventoryEvent} (hK : inv.Known)
    (h : inv.step e = some inv') : inv'.Known ↔ inv.AddsNothing e := by
  obtain ⟨candidates, ho⟩ := offers_of_step h
  rw [← ho.known, Known, ho.reports, ho.rows]
  constructor
  · intro hall s hs
    obtain ⟨row, hrow, hcovers⟩ := hall s (List.mem_append_right _ hs)
    exact ⟨row, by rwa [Keyed.row_addAll] at hrow, hcovers⟩
  · intro hnew s hs
    rw [Keyed.row_addAll]
    rcases List.mem_append.1 hs with hold | hreported
    · obtain ⟨row, hrow, hcovers⟩ := hK s hold
      exact ⟨row, by rw [Keyed.row_append, hrow, Option.some_or], hcovers⟩
    · exact hnew s hreported

/-- **Which runs keep the inventory a union**, in every state they reach: those in which no step reports
something new of a location that has a row. -/
theorem inventory_union_iff {inv : Inventory} {es : List InventoryEvent}
    (h : Machine.run step {} es = some inv) :
    (∀ es' inv', es' <+: es → Machine.run step {} es' = some inv' → inv'.Unions) ↔
      Machine.Along step AddsNothing {} es := by
  have hempty : Inv {} := ⟨List.nodup_nil, fun row hrow ↦ absurd hrow List.not_mem_nil⟩
  have hI : ∀ {es' inv'}, Machine.run step {} es' = some inv' → inv'.Inv := fun hrun ↦
    Machine.inv_of_run (fun hI hs ↦ hI.of_step hs) hrun hempty
  have halways := Machine.always_iff_along (C := AddsNothing) (fun hK hs ↦ known_iff hK hs) h
    (fun s hs ↦ absurd hs List.not_mem_nil)
  rw [← halways]
  refine forall_congr' fun es' ↦ forall_congr' fun inv' ↦ forall_congr' fun _ ↦ forall_congr' fun hrun ↦ ?_
  exact unions_iff (hI hrun)

end Inventory

end

section

attribute [local instance] asciiTables asciiDigits plainNumbers

namespace Inventory

/-- An exchange with a page that was observed without authentication. -/
def observedPage : InventoryEvent := .ingest { record := sampleRecord } (Dict.recipe [
  ("entries", .arr [.obj (Dict.recipe [("url", Json.text "https://app.example/a")])])])

/-- What a specification says of that page. -/
def specifiedPage (param role : String) : DiscoveredEndpoint where
  method := "GET".toList
  url := "https://app.example/a".toList
  provenance := .OPENAPI
  path_template := "/a".toList
  parameters := [Dict.recipe [("name", Json.text param), ("in", Json.text "query")]]
  auth_required := true
  roles := [role.toList]

/-- A discovery run over such specifications. -/
def specifiedPages (pages : List (String × String)) : InventoryEvent :=
  .discovery { record := sampleRecord } (pages.map fun p ↦ (specifiedPage p.1 p.2, sampleAnswer))

/-- Two sources that one run merges. -/
theorem inventory_union_iff_merged :
    ∃ inv, Machine.run step {} [specifiedPages [("id", "admin"), ("page", "user")]] = some inv ∧
      inv.Unions := by
  have hruns : (Machine.run step {} [specifiedPages [("id", "admin"), ("page", "user")]]).isSome := by
    decide +kernel
  obtain ⟨inv, hrun⟩ := Option.isSome_iff_exists.1 hruns
  refine ⟨inv, hrun, (inventory_union_iff hrun).2 ⟨fun s hs ↦ nofun, fun t ht ↦ trivial⟩ _ inv ?_ hrun⟩
  exact List.prefix_refl _

/-- A page whose exchange was observed first loses what its specification says. -/
theorem inventory_not_union :
    ∃ inv, Machine.run step {} [observedPage, specifiedPages [("id", "admin")]] = some inv ∧
      ¬inv.Unions := by
  have hauth : (Machine.run step {} [observedPage, specifiedPages [("id", "admin")]]).map (fun inv ↦
      (inv.rows.map (·.auth_required), inv.reports.map (·.auth_required))) =
        some ([false], [false, true]) := by decide +kernel
  obtain ⟨inv, hrun, hlists⟩ := Option.map_eq_some_iff.1 hauth
  obtain ⟨hrows, hreports⟩ := Prod.mk.inj hlists
  refine ⟨inv, hrun, fun h ↦ ?_⟩
  -- the second source demands authentication, and no row does
  have hsource : true ∈ inv.reports.map (·.auth_required) := by
    rw [hreports]
    decide
  obtain ⟨s, hs, hsauth⟩ := List.mem_map.1 hsource
  obtain ⟨row, hrow, hunion⟩ := h s hs
  have hrowauth : row.auth_required = true :=
    hunion.auth_required.2 ⟨s, List.mem_filter.2 ⟨hs, decide_eq_true rfl⟩, hsauth⟩
  have hmem : row ∈ inv.rows.filter (·.fingerprint = s.fingerprint) := hrow ▸ List.mem_singleton_self row
  have hdemand : true ∈ inv.rows.map (·.auth_required) :=
    List.mem_map.2 ⟨row, (List.mem_filter.1 hmem).1, hrowauth⟩
  rw [hrows] at hdemand
  exact absurd hdemand (by decide)

end Inventory

end

end Discovery

end Sentrik
