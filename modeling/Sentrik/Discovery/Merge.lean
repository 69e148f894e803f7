import Sentrik.Discovery.Intake
import Sentrik.Discovery.Signature
import Sentrik.Library.Keyed

/-!
# Merging what several sources report

A location that more than one source reports is merged in memory: the more confident endpoint is the base,
its parameters come first, those of the other are added under the keys that are free, and authentication and
roles are united.

## Main results

* `consolidate_covers`, `consolidate_within`: what merging two endpoints keeps, and that it invents nothing.
* `merged_of_merge_endpoints`: after any list of endpoints each reported location has an endpoint that covers
  all of its sources.
-/

namespace Sentrik

/-- What a dictionary reads of a number: one rendering for all numbers that are equal. -/
class NumberTables where
  canonical : Text → Text

/-- Every number is equal to itself only. -/
@[reducible] def plainNumbers : NumberTables where
  canonical rendering := rendering

namespace Discovery

/-! ### Keys -/

/-- A value a dictionary can be keyed by; the truth values are numbers. -/
inductive HashKey
  | null
  | num (canonical : Text)
  | str (t : Text)
  deriving DecidableEq, Repr

section

variable [n : NumberTables]

def hashKey : Json → Except Raised HashKey
  | .null => .ok .null
  | .bool b => .ok (.num (n.canonical (if b then "1".toList else "0".toList)))
  | .num rendering _ => .ok (.num (n.canonical rendering))
  | .str t => .ok (.str t)
  | .arr _ | .obj _ => .error .TypeError

/-- The key of a parameter: its name, and its location. -/
def paramKey (p : Dict) : Except Raised (HashKey × HashKey) := do
  let name ← p.item "name"
  let name ← hashKey name
  let location ← hashKey (p.getD "in" (Json.text "query"))
  return (name, location)

/-- Two parameters have the same name and location: as they are written, or as a dictionary reads them. -/
def SameKey (p q : Dict) : Prop :=
  (p.item "name" = q.item "name" ∧ p.getD "in" (Json.text "query") = q.getD "in" (Json.text "query")) ∨
    ∃ k, paramKey p = .ok k ∧ paramKey q = .ok k

theorem SameKey.refl (p : Dict) : SameKey p p := Or.inl ⟨rfl, rfl⟩

theorem SameKey.trans {p q r : Dict} (hpq : SameKey p q) (hqr : SameKey q r) : SameKey p r := by
  have hkey : ∀ {p q : Dict}, p.item "name" = q.item "name" →
      p.getD "in" (Json.text "query") = q.getD "in" (Json.text "query") → paramKey p = paramKey q := by
    intro p q hname hlocation
    rw [paramKey, hname, hlocation, paramKey]
  rcases hpq with ⟨hname, hlocation⟩ | ⟨k, hp, hq⟩
  · rcases hqr with ⟨hname', hlocation'⟩ | ⟨k, hq, hr⟩
    · exact Or.inl ⟨hname.trans hname', hlocation.trans hlocation'⟩
    · exact Or.inr ⟨k, (hkey hname hlocation).trans hq, hr⟩
  · rcases hqr with ⟨hname, hlocation⟩ | ⟨k', hq', hr⟩
    · exact Or.inr ⟨k, hp, (hkey hname hlocation).symm.trans hq⟩
    · obtain rfl := Except.ok.inj (hq.symm.trans hq')
      exact Or.inr ⟨k, hp, hr⟩

/-! ### The code -/

/-- A parameter under its key. -/
def keyed (p : Dict) : Except Raised ((HashKey × HashKey) × Dict) := do
  let key ← paramKey p
  return (key, p)

/-- The parameters of the base, a later one in the place of an earlier one of its key, and those of the
other whose keys are free. -/
def merged_params (base other : List Dict) : Except Raised (List Dict) := do
  let base ← base.mapM keyed
  let other ← other.mapM keyed
  return (Keyed.addAll Prod.fst (Keyed.setAll Prod.fst [] base) other).map Prod.snd

/-- Merge an endpoint into the base. -/
def consolidate (base other : DiscoveredEndpoint) : Except Raised DiscoveredEndpoint := do
  let parameters ← merged_params base.parameters other.parameters
  return { base with
    parameters
    auth_required := base.auth_required || other.auth_required
    roles := sorted (base.roles ++ other.roles).dedup
    request_body_schema :=
      if base.request_body_schema = [] ∧ other.request_body_schema ≠ [] then other.request_body_schema
      else base.request_body_schema }

/-- The more confident endpoint is the base, the earlier one among equals. -/
def mergeTwo (existing ep : DiscoveredEndpoint) : Except Raised DiscoveredEndpoint :=
  if existing.confidence ≥ ep.confidence then consolidate existing ep else consolidate ep existing

section

variable [UnicodeTables] [DigitTables]

def DiscoveredEndpoint.fingerprint (ep : DiscoveredEndpoint) : Except Raised Text :=
  endpoint_fingerprint ep.method ep.url ep.path_template

/-- One endpoint more. -/
def mergeOne (by_fp : List (Text × DiscoveredEndpoint)) (ep : DiscoveredEndpoint) :
    Except Raised (List (Text × DiscoveredEndpoint)) := do
  let fp ← ep.fingerprint
  match Keyed.row Prod.fst by_fp fp with
  | none => return by_fp ++ [(fp, ep)]
  | some (_, existing) =>
    let base ← mergeTwo existing ep
    return Keyed.set Prod.fst by_fp (fp, base)

def merge_endpoints (endpoints : List DiscoveredEndpoint) : Except Raised (List DiscoveredEndpoint) := do
  let by_fp ← endpoints.foldlM mergeOne []
  return by_fp.map Prod.snd

end

/-! ### What a source reports -/

/-- What is said of a location. -/
structure Report where
  fingerprint : Text
  parameters : List Dict
  auth_required : Bool
  roles : List Text

/-- What an endpoint says of its location. -/
def DiscoveredEndpoint.report (ep : DiscoveredEndpoint) (fingerprint : Text) : Report where
  fingerprint := fingerprint
  parameters := ep.parameters
  auth_required := ep.auth_required
  roles := ep.roles

namespace Report

/-- All that a source says is there: its keys, its demand for authentication, its roles. -/
structure Covers (row source : Report) : Prop where
  keys : ∀ p ∈ source.parameters, ∃ q ∈ row.parameters, SameKey p q
  auth_required : source.auth_required = true → row.auth_required = true
  roles : source.roles ⊆ row.roles

/-- A row demands nothing that no source of its location demands. -/
structure Within (row : Report) (sources : List Report) : Prop where
  auth_required : row.auth_required = true →
    ∃ s ∈ sources, s.fingerprint = row.fingerprint ∧ s.auth_required = true
  roles : ∀ role ∈ row.roles, ∃ s ∈ sources, s.fingerprint = row.fingerprint ∧ role ∈ s.roles

theorem Covers.refl (r : Report) : r.Covers r where
  keys p hp := ⟨p, hp, SameKey.refl p⟩
  auth_required h := h
  roles := List.Subset.refl _

theorem Covers.trans {a b c : Report} (hab : a.Covers b) (hbc : b.Covers c) : a.Covers c where
  keys p hp := by
    obtain ⟨q, hq, hpq⟩ := hbc.keys p hp
    obtain ⟨r, hr, hqr⟩ := hab.keys q hq
    exact ⟨r, hr, hpq.trans hqr⟩
  auth_required h := hab.auth_required (hbc.auth_required h)
  roles := List.Subset.trans hbc.roles hab.roles

omit n in
theorem Within.mono {row : Report} {sources sources' : List Report} (h : row.Within sources)
    (hsub : sources ⊆ sources') : row.Within sources' where
  auth_required hauth := by
    obtain ⟨s, hs, hrest⟩ := h.auth_required hauth
    exact ⟨s, hsub hs, hrest⟩
  roles role hrole := by
    obtain ⟨s, hs, hrest⟩ := h.roles role hrole
    exact ⟨s, hsub hs, hrest⟩

omit n in
theorem within_of_mem {s : Report} {sources : List Report} (h : s ∈ sources) : s.Within sources where
  auth_required hauth := ⟨s, h, rfl, hauth⟩
  roles _ hrole := ⟨s, h, rfl, hrole⟩

end Report

/-! ### Merging two -/

/-- The parameters with their keys. -/
theorem mem_of_mapM_keyed {ps : List Dict} {es : List ((HashKey × HashKey) × Dict)}
    (h : ps.mapM keyed = .ok es) :
    (∀ p ∈ ps, ∃ k, paramKey p = .ok k ∧ k ∈ es.map Prod.fst) ∧ ∀ e ∈ es, paramKey e.2 = .ok e.1 := by
  have hkeyed : ∀ {p e}, keyed p = .ok e → paramKey p = .ok e.1 ∧ e.2 = p := by
    intro p e he
    rw [keyed] at he
    cases hk : paramKey p with
    | error exc =>
      rw [hk] at he
      cases he
    | ok k =>
      rw [hk] at he
      obtain rfl := Except.ok.inj he
      exact ⟨rfl, rfl⟩
  have hmap : ps.map keyed = es.map .ok := mapM_eq_ok_iff.1 h
  constructor
  · intro p hp
    have hmem : keyed p ∈ es.map Except.ok := hmap ▸ List.mem_map_of_mem hp
    obtain ⟨e, he, heq⟩ := List.mem_map.1 hmem
    exact ⟨e.1, (hkeyed heq.symm).1, List.mem_map_of_mem he⟩
  · intro e he
    have hmem : Except.ok e ∈ ps.map keyed := hmap ▸ List.mem_map_of_mem he
    obtain ⟨p, -, heq⟩ := List.mem_map.1 hmem
    obtain ⟨hkey, hp⟩ := hkeyed heq
    rwa [hp]

/-- Every key of either list is there after merging. -/
theorem merged_params_keys {base other ps : List Dict} (h : merged_params base other = .ok ps) :
    ∀ p ∈ base ++ other, ∃ q ∈ ps, SameKey p q := by
  rw [merged_params] at h
  cases hbase : base.mapM keyed with
  | error exc =>
    rw [hbase] at h
    cases h
  | ok es =>
    rw [hbase] at h
    cases hother : other.mapM keyed with
    | error exc =>
      rw [hother] at h
      cases h
    | ok os =>
      rw [hother] at h
      obtain rfl := Except.ok.inj h
      obtain ⟨hfind, hkeys⟩ := mem_of_mapM_keyed hbase
      obtain ⟨hfind', hkeys'⟩ := mem_of_mapM_keyed hother
      intro p hp
      -- the key of the parameter is one of the two lists of keys
      have hkey : ∃ k, paramKey p = .ok k ∧ k ∈ (es ++ os).map Prod.fst := by
        rw [List.map_append]
        rcases List.mem_append.1 hp with hp | hp
        · obtain ⟨k, hk, hmem⟩ := hfind p hp
          exact ⟨k, hk, List.mem_append_left _ hmem⟩
        · obtain ⟨k, hk, hmem⟩ := hfind' p hp
          exact ⟨k, hk, List.mem_append_right _ hmem⟩
      obtain ⟨k, hk, hmem⟩ := hkey
      have hmerged : k ∈ (Keyed.addAll Prod.fst (Keyed.setAll Prod.fst [] es) os).map Prod.fst := by
        rw [Keyed.mem_keys_addAll, List.map_append, List.mem_append, Keyed.mem_keys_setAll, List.nil_append,
          ← List.mem_append, ← List.map_append]
        exact hmem
      obtain ⟨e, he, rfl⟩ := List.mem_map.1 hmerged
      refine ⟨e.2, List.mem_map_of_mem he, Or.inr ⟨e.1, hk, ?_⟩⟩
      rcases Keyed.mem_addAll he with hes | hos
      · rcases Keyed.mem_setAll hes with hnil | hes
        · exact absurd hnil List.not_mem_nil
        · exact hkeys e hes
      · exact hkeys' e hos

omit n in
theorem mem_sorted_dedup {role : Text} {l : List Text} : role ∈ sorted l.dedup ↔ role ∈ l := by
  rw [sorted, List.mem_insertionSort, List.mem_dedup]

/-- What merging makes of two endpoints. -/
theorem consolidate_ok {base other m : DiscoveredEndpoint} (h : consolidate base other = .ok m) :
    ∃ ps, merged_params base.parameters other.parameters = .ok ps ∧
      m.method = base.method ∧ m.url = base.url ∧ m.path_template = base.path_template ∧
      m.parameters = ps ∧ m.auth_required = (base.auth_required || other.auth_required) ∧
      m.roles = sorted (base.roles ++ other.roles).dedup := by
  rw [consolidate] at h
  cases hps : merged_params base.parameters other.parameters with
  | error exc =>
    rw [hps] at h
    cases h
  | ok ps =>
    rw [hps] at h
    obtain rfl := Except.ok.inj h
    exact ⟨ps, rfl, rfl, rfl, rfl, rfl, rfl, rfl⟩

/-- **Merging covers both.** -/
theorem consolidate_covers {base other m : DiscoveredEndpoint} (h : consolidate base other = .ok m)
    (fp : Text) : (m.report fp).Covers (base.report fp) ∧ (m.report fp).Covers (other.report fp) := by
  obtain ⟨ps, hps, -, -, -, hparams, hauth, hroles⟩ := consolidate_ok h
  have hkeys := merged_params_keys hps
  constructor
  · refine ⟨fun p hp ↦ ?_, fun hbase ↦ ?_, fun role hrole ↦ ?_⟩
    · obtain ⟨q, hq, hpq⟩ := hkeys p (List.mem_append_left _ hp)
      refine ⟨q, ?_, hpq⟩
      show q ∈ m.parameters
      rwa [hparams]
    · show m.auth_required = true
      rw [hauth, show base.auth_required = true from hbase, Bool.true_or]
    · show role ∈ m.roles
      rw [hroles, mem_sorted_dedup]
      exact List.mem_append_left _ hrole
  · refine ⟨fun p hp ↦ ?_, fun hother ↦ ?_, fun role hrole ↦ ?_⟩
    · obtain ⟨q, hq, hpq⟩ := hkeys p (List.mem_append_right _ hp)
      refine ⟨q, ?_, hpq⟩
      show q ∈ m.parameters
      rwa [hparams]
    · show m.auth_required = true
      rw [hauth, show other.auth_required = true from hother, Bool.or_true]
    · show role ∈ m.roles
      rw [hroles, mem_sorted_dedup]
      exact List.mem_append_right _ hrole

/-- **Merging invents nothing.** -/
theorem consolidate_within {base other m : DiscoveredEndpoint} (h : consolidate base other = .ok m)
    {fp : Text} {sources : List Report} (hbase : (base.report fp).Within sources)
    (hother : (other.report fp).Within sources) : (m.report fp).Within sources := by
  obtain ⟨ps, -, -, -, -, -, hauth, hroles⟩ := consolidate_ok h
  constructor
  · intro hm
    have heither : base.auth_required = true ∨ other.auth_required = true := by
      rw [← Bool.or_eq_true, ← hauth]
      exact hm
    rcases heither with hb | ho
    · exact hbase.auth_required hb
    · exact hother.auth_required ho
  · intro role hrole
    have heither : role ∈ base.roles ++ other.roles := by
      rw [← mem_sorted_dedup, ← hroles]
      exact hrole
    rcases List.mem_append.1 heither with hb | ho
    · exact hbase.roles role hb
    · exact hother.roles role ho

/-! ### Merging all -/

section

variable [UnicodeTables] [DigitTables]

omit n in
/-- What the endpoints report, as far as they have a location. -/
def reportsOf (endpoints : List DiscoveredEndpoint) : List Report :=
  endpoints.filterMap fun ep ↦ ep.fingerprint.toOption.map ep.report

omit n in
theorem reportsOf_cons {ep : DiscoveredEndpoint} {fp : Text} (h : ep.fingerprint = .ok fp)
    (eps : List DiscoveredEndpoint) : reportsOf (ep :: eps) = ep.report fp :: reportsOf eps := by
  rw [reportsOf, List.filterMap_cons, h]
  rfl

/-- The endpoints merged so far cover what was seen, and invent nothing. -/
structure Merged (by_fp : List (Text × DiscoveredEndpoint)) (seen : List Report) : Prop where
  fingerprint : ∀ e ∈ by_fp, e.2.fingerprint = .ok e.1
  covers : ∀ s ∈ seen, ∃ e, Keyed.row Prod.fst by_fp s.fingerprint = some e ∧ (e.2.report e.1).Covers s
  within : ∀ e ∈ by_fp, (e.2.report e.1).Within seen

omit n in
theorem fingerprint_of_consolidate [NumberTables] {base other m : DiscoveredEndpoint}
    (h : consolidate base other = .ok m) : m.fingerprint = base.fingerprint := by
  obtain ⟨ps, -, hmethod, hurl, htemplate, -⟩ := consolidate_ok h
  rw [DiscoveredEndpoint.fingerprint, hmethod, hurl, htemplate, DiscoveredEndpoint.fingerprint]

/-- Whichever is the base. -/
theorem consolidated {existing ep m : DiscoveredEndpoint} {fp : Text}
    (hexisting : existing.fingerprint = .ok fp) (hep : ep.fingerprint = .ok fp)
    (h : mergeTwo existing ep = .ok m) :
    m.fingerprint = .ok fp ∧ (m.report fp).Covers (existing.report fp) ∧
      (m.report fp).Covers (ep.report fp) ∧
      ∀ sources, (existing.report fp).Within sources → (ep.report fp).Within sources →
        (m.report fp).Within sources := by
  rw [mergeTwo] at h
  split at h
  next =>
    obtain ⟨hbase, hother⟩ := consolidate_covers h fp
    exact ⟨(fingerprint_of_consolidate h).trans hexisting, hbase, hother,
      fun _ hb ho ↦ consolidate_within h hb ho⟩
  next =>
    obtain ⟨hbase, hother⟩ := consolidate_covers h fp
    exact ⟨(fingerprint_of_consolidate h).trans hep, hother, hbase,
      fun _ hb ho ↦ consolidate_within h ho hb⟩

/-- An endpoint of a new location. -/
theorem Merged.append {by_fp : List (Text × DiscoveredEndpoint)} {seen : List Report}
    (h : Merged by_fp seen) {ep : DiscoveredEndpoint} {fp : Text} (hfp : ep.fingerprint = .ok fp)
    (hnew : Keyed.row Prod.fst by_fp fp = none) :
    Merged (by_fp ++ [(fp, ep)]) (seen ++ [ep.report fp]) where
  fingerprint e he := by
    rcases List.mem_append.1 he with hold | hadded
    · exact h.fingerprint e hold
    · rw [List.mem_singleton.1 hadded]
      exact hfp
  covers s hs := by
    rcases List.mem_append.1 hs with hold | hadded
    · obtain ⟨e, he, hcovers⟩ := h.covers s hold
      exact ⟨e, by rw [Keyed.row_append, he, Option.some_or], hcovers⟩
    · rw [List.mem_singleton.1 hadded]
      refine ⟨(fp, ep), ?_, Report.Covers.refl _⟩
      show Keyed.row Prod.fst (by_fp ++ [(fp, ep)]) fp = some (fp, ep)
      rw [Keyed.row_append, hnew, Option.none_or, Keyed.row, List.find?_singleton, if_pos (by simp)]
  within e he := by
    rcases List.mem_append.1 he with hold | hadded
    · exact (h.within e hold).mono (List.subset_append_left _ _)
    · rw [List.mem_singleton.1 hadded]
      exact Report.within_of_mem (List.mem_append_right _ (List.mem_singleton_self _))

/-- An endpoint of a location that has one. -/
theorem Merged.set {by_fp : List (Text × DiscoveredEndpoint)} {seen : List Report}
    (h : Merged by_fp seen) {ep existing m : DiscoveredEndpoint} {fp : Text}
    (hfp : ep.fingerprint = .ok fp) (hrow : Keyed.row Prod.fst by_fp fp = some (fp, existing))
    (hm : mergeTwo existing ep = .ok m) :
    Merged (Keyed.set Prod.fst by_fp (fp, m)) (seen ++ [ep.report fp]) := by
  have hmem := Keyed.mem_of_row hrow
  obtain ⟨hfinger, hcovers, hcovers', hwithin⟩ := consolidated (h.fingerprint _ hmem) hfp hm
  have hself : Keyed.row Prod.fst (Keyed.set Prod.fst by_fp (fp, m)) fp = some (fp, m) := by
    rw [Keyed.row_set, if_pos rfl]
  refine ⟨fun e he ↦ ?_, fun s hs ↦ ?_, fun e he ↦ ?_⟩
  · rcases Keyed.mem_set he with rfl | hold
    · exact hfinger
    · exact h.fingerprint e hold
  · rcases List.mem_append.1 hs with hold | hadded
    · obtain ⟨e, he, hs⟩ := h.covers s hold
      by_cases hloc : fp = s.fingerprint
      · -- what covered the location before is covered now
        rw [← hloc] at he ⊢
        obtain rfl := Option.some.inj (hrow.symm.trans he)
        exact ⟨(fp, m), hself, hcovers.trans hs⟩
      · exact ⟨e, by rw [Keyed.row_set, if_neg hloc, he], hs⟩
    · rw [List.mem_singleton.1 hadded]
      exact ⟨(fp, m), hself, hcovers'⟩
  · rcases Keyed.mem_set he with rfl | hold
    · refine hwithin _ ?_ (Report.within_of_mem (List.mem_append_right _ (List.mem_singleton_self _)))
      exact (h.within _ hmem).mono (List.subset_append_left _ _)
    · exact (h.within e hold).mono (List.subset_append_left _ _)

/-- **One endpoint more.** -/
theorem Merged.of_mergeOne {by_fp by_fp' : List (Text × DiscoveredEndpoint)} {seen : List Report}
    {ep : DiscoveredEndpoint} (h : Merged by_fp seen) (hmerge : mergeOne by_fp ep = .ok by_fp') :
    ∃ fp, ep.fingerprint = .ok fp ∧ Merged by_fp' (seen ++ [ep.report fp]) := by
  rw [mergeOne] at hmerge
  cases hfp : ep.fingerprint with
  | error exc =>
    rw [hfp] at hmerge
    cases hmerge
  | ok fp =>
    rw [hfp] at hmerge
    refine ⟨fp, rfl, ?_⟩
    cases hrow : Keyed.row Prod.fst by_fp fp with
    | none =>
      simp only [bind, Except.bind, hrow] at hmerge
      rw [← Except.ok.inj hmerge]
      exact h.append hfp hrow
    | some e =>
      obtain ⟨fp', existing⟩ := e
      obtain rfl : fp' = fp := Keyed.key_of_row hrow
      simp only [bind, Except.bind, hrow] at hmerge
      cases hm : mergeTwo existing ep with
      | error exc =>
        rw [hm] at hmerge
        cases hmerge
      | ok m =>
        rw [hm] at hmerge
        rw [← Except.ok.inj hmerge]
        exact h.set hfp hrow hm

theorem Merged.of_foldlM {by_fp by_fp' : List (Text × DiscoveredEndpoint)} {seen : List Report}
    {eps : List DiscoveredEndpoint} (h : Merged by_fp seen)
    (hfold : eps.foldlM mergeOne by_fp = .ok by_fp') : Merged by_fp' (seen ++ reportsOf eps) := by
  induction eps generalizing by_fp seen with
  | nil =>
    rw [List.foldlM_nil] at hfold
    rw [← Except.ok.inj hfold, reportsOf, List.filterMap_nil, List.append_nil]
    exact h
  | cons ep eps ih =>
    rw [List.foldlM_cons] at hfold
    cases hone : mergeOne by_fp ep with
    | error exc =>
      rw [hone] at hfold
      cases hfold
    | ok by_fp₁ =>
      rw [hone] at hfold
      obtain ⟨fp, hfp, hmerged⟩ := h.of_mergeOne hone
      have hrest := ih hmerged hfold
      rwa [List.append_assoc, List.singleton_append, ← reportsOf_cons hfp] at hrest

/-- **What merging makes of a list**: one endpoint for each location that is reported, which covers all
that is reported of it. -/
theorem merged_of_merge_endpoints {eps ms : List DiscoveredEndpoint} (h : merge_endpoints eps = .ok ms) :
    ∃ by_fp, ms = by_fp.map Prod.snd ∧ Merged by_fp (reportsOf eps) := by
  rw [merge_endpoints] at h
  cases hfold : eps.foldlM mergeOne [] with
  | error exc =>
    rw [hfold] at h
    cases h
  | ok by_fp =>
    rw [hfold] at h
    refine ⟨by_fp, (Except.ok.inj h).symm, ?_⟩
    have hempty : Merged [] [] :=
      ⟨fun e he ↦ absurd he List.not_mem_nil, fun s hs ↦ absurd hs List.not_mem_nil,
        fun e he ↦ absurd he List.not_mem_nil⟩
    have hmerged := hempty.of_foldlM hfold
    rwa [List.nil_append] at hmerged

end

end

end Discovery

end Sentrik
