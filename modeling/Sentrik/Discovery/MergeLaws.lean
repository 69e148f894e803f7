import Sentrik.Discovery.Merge

/-!
# What merging a list amounts to

`Summary m S`: the endpoint `m` says of its location exactly what the endpoints in `S` say together. Merging
two summaries is a summary of both (`Summary.consolidate`), whichever is the base; so after any list of
endpoints each location has the summary of its sources (`Inventoried.of_foldlM`), and a summary does not know
the order of its sources (`Summary.agree`).

A list has a result exactly if it is `Mergeable`: each endpoint has a fingerprint, and where two share one,
the names and locations of their parameters can be keys of a dictionary (`merge_laws_iff`).
-/

namespace Sentrik

namespace Discovery

section

variable [n : NumberTables]

/-! ### Summaries -/

/-- A parameter of the endpoint has this key. -/
def HasKey (e : DiscoveredEndpoint) (key : Except Raised (HashKey × HashKey)) : Prop :=
  ∃ p ∈ e.parameters, paramKey p = key

/-- What the endpoint says is what its sources say together. -/
structure Summary (m : DiscoveredEndpoint) (S : DiscoveredEndpoint → Prop) : Prop where
  keys : ∀ key, HasKey m key ↔ ∃ e, S e ∧ HasKey e key
  auth_required : m.auth_required = true ↔ ∃ e, S e ∧ e.auth_required = true
  roles : ∀ role, role ∈ m.roles ↔ ∃ e, S e ∧ role ∈ e.roles
  attained : ∃ e, S e ∧ e.confidence = m.confidence
  greatest : ∀ e, S e → e.confidence ≤ m.confidence
  body : m.request_body_schema ≠ [] ↔ ∃ e, S e ∧ e.request_body_schema ≠ []

theorem Summary.refl (m : DiscoveredEndpoint) : Summary m (· = m) := by
  refine ⟨fun key ↦ ?_, ?_, fun role ↦ ?_, ⟨m, rfl, rfl⟩, ?_, ?_⟩
  · rw [exists_eq_left]
  · rw [exists_eq_left]
  · rw [exists_eq_left]
  · rintro e rfl
    exact le_refl _
  · rw [exists_eq_left]

theorem Summary.congr {m : DiscoveredEndpoint} {S T : DiscoveredEndpoint → Prop} (h : Summary m S)
    (hST : ∀ e, S e ↔ T e) : Summary m T := by
  obtain rfl : S = T := funext fun e ↦ propext (hST e)
  exact h

/-- Two endpoints say the same, up to the order of their parameters and roles. -/
structure Agree (m m' : DiscoveredEndpoint) : Prop where
  keys : ∀ key, HasKey m key ↔ HasKey m' key
  auth_required : m.auth_required = m'.auth_required
  roles : ∀ role, role ∈ m.roles ↔ role ∈ m'.roles
  confidence : m.confidence = m'.confidence
  body : m.request_body_schema ≠ [] ↔ m'.request_body_schema ≠ []

/-- **A summary is determined by its sources.** -/
theorem Summary.agree {m m' : DiscoveredEndpoint} {S : DiscoveredEndpoint → Prop} (h : Summary m S)
    (h' : Summary m' S) : Agree m m' where
  keys key := (h.keys key).trans (h'.keys key).symm
  auth_required := Bool.eq_iff_iff.2 (h.auth_required.trans h'.auth_required.symm)
  roles role := (h.roles role).trans (h'.roles role).symm
  confidence := by
    obtain ⟨e, he, hconfidence⟩ := h.attained
    obtain ⟨e', he', hconfidence'⟩ := h'.attained
    refine le_antisymm ?_ ?_
    · rw [← hconfidence]
      exact h'.greatest e he
    · rw [← hconfidence']
      exact h.greatest e' he'
  body := h.body.trans h'.body.symm

/-! ### Merging two -/

/-- The keys of all parameters can be keys of a dictionary. -/
def Hashable (e : DiscoveredEndpoint) : Prop := ∀ p ∈ e.parameters, ∃ key, paramKey p = .ok key

theorem hashable_iff {e : DiscoveredEndpoint} : Hashable e ↔ ∀ exc, ¬HasKey e (.error exc) := by
  constructor
  · rintro h exc ⟨p, hp, hexc⟩
    obtain ⟨key, hkey⟩ := h p hp
    cases hkey.symm.trans hexc
  · intro h p hp
    cases hkey : paramKey p with
    | ok key => exact ⟨key, rfl⟩
    | error exc => exact absurd ⟨p, hp, hkey⟩ (h exc)

theorem Summary.hashable {m : DiscoveredEndpoint} {S : DiscoveredEndpoint → Prop} (h : Summary m S) :
    Hashable m ↔ ∀ e, S e → Hashable e := by
  simp only [hashable_iff, h.keys]
  constructor
  · exact fun hnone e he exc hkey ↦ hnone exc ⟨e, he, hkey⟩
  · rintro hall exc ⟨e, he, hkey⟩
    exact hall e he exc hkey

theorem keyed_eq_ok_iff {p : Dict} {entry : (HashKey × HashKey) × Dict} :
    keyed p = .ok entry ↔ paramKey p = .ok entry.1 ∧ entry.2 = p := by
  rw [keyed]
  cases paramKey p with
  | error exc => exact iff_of_false (by rintro ⟨⟩) (by rintro ⟨⟨⟩, -⟩)
  | ok key =>
    constructor
    · intro h
      obtain rfl := Except.ok.inj h
      exact ⟨rfl, rfl⟩
    · rintro ⟨hkey, rfl⟩
      obtain rfl := Except.ok.inj hkey
      rfl

/-- Keying succeeds where all keys can be. -/
theorem exists_mapM_keyed_iff {ps : List Dict} :
    (∃ es, ps.mapM keyed = .ok es) ↔ ∀ p ∈ ps, ∃ key, paramKey p = .ok key := by
  induction ps with
  | nil => exact iff_of_true ⟨[], rfl⟩ nofun
  | cons p rest ih =>
    rw [List.forall_mem_cons, ← ih, List.mapM_cons]
    constructor
    · rintro ⟨es, h⟩
      cases hp : keyed p with
      | error exc =>
        rw [hp] at h
        cases h
      | ok entry =>
        rw [hp] at h
        refine ⟨⟨entry.1, (keyed_eq_ok_iff.1 hp).1⟩, ?_⟩
        cases hrest : rest.mapM keyed with
        | error exc =>
          rw [hrest] at h
          cases h
        | ok es' => exact ⟨es', rfl⟩
    · rintro ⟨⟨key, hkey⟩, es, hes⟩
      have hp : keyed p = .ok (key, p) := keyed_eq_ok_iff.2 ⟨hkey, rfl⟩
      exact ⟨(key, p) :: es, by rw [hp, hes]; rfl⟩

/-- The keys of the keyed parameters. -/
theorem keys_of_mapM_keyed {ps : List Dict} {es : List ((HashKey × HashKey) × Dict)}
    (h : ps.mapM keyed = .ok es) (key : HashKey × HashKey) :
    key ∈ es.map Prod.fst ↔ ∃ p ∈ ps, paramKey p = .ok key := by
  obtain ⟨hfind, hkeys⟩ := mem_of_mapM_keyed h
  constructor
  · intro hkey
    have hmap : ps.map keyed = es.map .ok := mapM_eq_ok_iff.1 h
    obtain ⟨e, he, rfl⟩ := List.mem_map.1 hkey
    have hmem : Except.ok e ∈ ps.map keyed := hmap ▸ List.mem_map_of_mem he
    obtain ⟨p, hp, hpe⟩ := List.mem_map.1 hmem
    exact ⟨p, hp, (keyed_eq_ok_iff.1 hpe).1⟩
  · rintro ⟨p, hp, hkey⟩
    obtain ⟨key', hkey', hmem⟩ := hfind p hp
    obtain rfl := Except.ok.inj (hkey.symm.trans hkey')
    exact hmem

/-- **The keys after merging** are those of both. -/
theorem keys_of_merged_params {base other ps : List Dict} (h : merged_params base other = .ok ps)
    (key : Except Raised (HashKey × HashKey)) :
    (∃ q ∈ ps, paramKey q = key) ↔ (∃ p ∈ base, paramKey p = key) ∨ ∃ p ∈ other, paramKey p = key := by
  rw [merged_params] at h
  cases hbase : base.mapM keyed with
  | error exc =>
    rw [hbase] at h
    cases h
  | ok es =>
    rw [hbase] at h
    cases hother : other.mapM keyed with
    | error exc =>
      rw [hother] at h
      cases h
    | ok os =>
      rw [hother] at h
      obtain rfl := Except.ok.inj h
      -- every merged entry has its own key
      have hown : ∀ e ∈ Keyed.addAll Prod.fst (Keyed.setAll Prod.fst [] es) os, paramKey e.2 = .ok e.1 := by
        intro e he
        rcases Keyed.mem_addAll he with hes | hos
        · rcases Keyed.mem_setAll hes with hnil | hes
          · exact absurd hnil List.not_mem_nil
          · exact (mem_of_mapM_keyed hbase).2 e hes
        · exact (mem_of_mapM_keyed hother).2 e hos
      have hmerged (k : HashKey × HashKey) :
          k ∈ (Keyed.addAll Prod.fst (Keyed.setAll Prod.fst [] es) os).map Prod.fst ↔
            (∃ p ∈ base, paramKey p = .ok k) ∨ ∃ p ∈ other, paramKey p = .ok k := by
        rw [Keyed.mem_keys_addAll, List.map_append, List.mem_append, Keyed.mem_keys_setAll, List.nil_append,
          keys_of_mapM_keyed hbase, keys_of_mapM_keyed hother]
      cases key with
      | error exc =>
        refine iff_of_false ?_ ?_
        · rintro ⟨q, hq, hexc⟩
          obtain ⟨e, he, rfl⟩ := List.mem_map.1 hq
          cases (hown e he).symm.trans hexc
        · rintro (⟨p, hp, hexc⟩ | ⟨p, hp, hexc⟩)
          · obtain ⟨k, hk⟩ := exists_mapM_keyed_iff.1 ⟨es, hbase⟩ p hp
            cases hk.symm.trans hexc
          · obtain ⟨k, hk⟩ := exists_mapM_keyed_iff.1 ⟨os, hother⟩ p hp
            cases hk.symm.trans hexc
      | ok k =>
        rw [← hmerged]
        constructor
        · rintro ⟨q, hq, hk⟩
          obtain ⟨e, he, rfl⟩ := List.mem_map.1 hq
          obtain rfl := Except.ok.inj ((hown e he).symm.trans hk)
          exact List.mem_map_of_mem he
        · intro hk
          obtain ⟨e, he, rfl⟩ := List.mem_map.1 hk
          exact ⟨e.2, List.mem_map_of_mem he, hown e he⟩

theorem exists_consolidate_iff {base other : DiscoveredEndpoint} :
    (∃ m, consolidate base other = .ok m) ↔ Hashable base ∧ Hashable other := by
  rw [Hashable, Hashable, ← exists_mapM_keyed_iff, ← exists_mapM_keyed_iff, consolidate, merged_params]
  cases base.parameters.mapM keyed with
  | error exc => exact iff_of_false (by rintro ⟨_, ⟨⟩⟩) (by rintro ⟨⟨_, ⟨⟩⟩, -⟩)
  | ok es =>
    cases other.parameters.mapM keyed with
    | error exc => exact iff_of_false (by rintro ⟨_, ⟨⟩⟩) (by rintro ⟨-, _, ⟨⟩⟩)
    | ok os => exact iff_of_true ⟨_, rfl⟩ ⟨⟨es, rfl⟩, os, rfl⟩

theorem exists_mergeTwo_iff {existing ep : DiscoveredEndpoint} :
    (∃ m, mergeTwo existing ep = .ok m) ↔ Hashable existing ∧ Hashable ep := by
  rw [mergeTwo]
  split
  · exact exists_consolidate_iff
  · exact exists_consolidate_iff.trans and_comm

/-- **Merging two summaries.** -/
theorem Summary.consolidate {base other m : DiscoveredEndpoint} {S T : DiscoveredEndpoint → Prop}
    (hbase : Summary base S) (hother : Summary other T) (hle : other.confidence ≤ base.confidence)
    (h : consolidate base other = .ok m) : Summary m fun e ↦ S e ∨ T e := by
  rw [Discovery.consolidate] at h
  cases hps : merged_params base.parameters other.parameters with
  | error exc =>
    rw [hps] at h
    cases h
  | ok ps =>
    rw [hps] at h
    obtain rfl := Except.ok.inj h
    refine ⟨fun key ↦ ?_, ?_, fun role ↦ ?_, ?_, ?_, ?_⟩
    · rw [HasKey, keys_of_merged_params hps]
      simp only [or_and_right, exists_or]
      exact or_congr (hbase.keys key) (hother.keys key)
    · rw [Bool.or_eq_true, hbase.auth_required, hother.auth_required]
      simp only [or_and_right, exists_or]
    · rw [mem_sorted_dedup, List.mem_append, hbase.roles, hother.roles]
      simp only [or_and_right, exists_or]
    · obtain ⟨e, he, hconfidence⟩ := hbase.attained
      exact ⟨e, .inl he, hconfidence⟩
    · rintro e (he | he)
      · exact hbase.greatest e he
      · exact (hother.greatest e he).trans hle
    · simp only [or_and_right, exists_or, ← hbase.body, ← hother.body]
      by_cases hb : base.request_body_schema = []
      · by_cases ho : other.request_body_schema = []
        · rw [if_neg fun h ↦ h.2 ho]
          exact iff_of_false (fun h ↦ h hb) fun h ↦ h.elim (fun h ↦ h hb) fun h ↦ h ho
        · rw [if_pos ⟨hb, ho⟩]
          exact iff_of_true ho (.inr ho)
      · rw [if_neg fun h ↦ hb h.1]
        exact iff_of_true hb (.inl hb)

theorem Summary.mergeTwo {existing ep m : DiscoveredEndpoint} {S : DiscoveredEndpoint → Prop}
    (hexisting : Summary existing S) (h : mergeTwo existing ep = .ok m) :
    Summary m fun e ↦ S e ∨ e = ep := by
  rw [Discovery.mergeTwo] at h
  split at h
  next hge => exact hexisting.consolidate (Summary.refl ep) hge h
  next hlt =>
    exact ((Summary.refl ep).consolidate hexisting (not_le.1 hlt).le h).congr fun e ↦ or_comm

theorem fingerprint_of_mergeTwo [UnicodeTables] [DigitTables] {existing ep m : DiscoveredEndpoint}
    (hsame : existing.fingerprint = ep.fingerprint) (h : mergeTwo existing ep = .ok m) :
    m.fingerprint = ep.fingerprint := by
  rw [Discovery.mergeTwo] at h
  split at h
  · exact (fingerprint_of_consolidate h).trans hsame
  · exact fingerprint_of_consolidate h

/-! ### Merging all -/

variable [UnicodeTables] [DigitTables]

/-- Each location that was seen has the summary of its sources. -/
structure Inventoried (by_fp : List (Text × DiscoveredEndpoint)) (seen : List DiscoveredEndpoint) : Prop where
  nodup : (by_fp.map Prod.fst).Nodup
  fingerprint : ∀ e ∈ by_fp, e.2.fingerprint = .ok e.1
  known : ∀ s ∈ seen, ∃ fp ∈ by_fp.map Prod.fst, s.fingerprint = .ok fp
  summary : ∀ e ∈ by_fp, Summary e.2 fun s ↦ s ∈ seen ∧ s.fingerprint = .ok e.1

/-- Where two endpoints share a location, their parameters can be keyed. -/
def Mergeable (eps : List DiscoveredEndpoint) : Prop :=
  (∀ e ∈ eps, ∃ fp, e.fingerprint = .ok fp) ∧
    eps.Pairwise fun e e' ↦ e.fingerprint = e'.fingerprint → Hashable e ∧ Hashable e'

theorem Inventoried.nil : Inventoried [] [] where
  nodup := List.nodup_nil
  fingerprint _ he := absurd he List.not_mem_nil
  known _ hs := absurd hs List.not_mem_nil
  summary _ he := absurd he List.not_mem_nil

variable {by_fp by_fp' : List (Text × DiscoveredEndpoint)} {seen : List DiscoveredEndpoint}
  {ep : DiscoveredEndpoint}

/-- What a location without a row has seen. -/
theorem Inventoried.unseen (h : Inventoried by_fp seen) {fp : Text}
    (hrow : Keyed.row Prod.fst by_fp fp = none) : ∀ s ∈ seen, s.fingerprint ≠ .ok fp := by
  intro s hs hfp
  obtain ⟨fp', hmem, hfp'⟩ := h.known s hs
  obtain rfl := Except.ok.inj (hfp.symm.trans hfp')
  exact Keyed.row_eq_none_iff.1 hrow hmem

omit n in
theorem mergeOne_new [NumberTables] {fp : Text} (hfp : ep.fingerprint = .ok fp)
    (hrow : Keyed.row Prod.fst by_fp fp = none) : mergeOne by_fp ep = .ok (by_fp ++ [(fp, ep)]) := by
  rw [mergeOne, hfp]
  simp only [bind, Except.bind, hrow]
  rfl

omit n in
theorem mergeOne_known [NumberTables] {fp : Text} {existing : DiscoveredEndpoint}
    (hfp : ep.fingerprint = .ok fp) (hrow : Keyed.row Prod.fst by_fp fp = some (fp, existing)) :
    mergeOne by_fp ep = (mergeTwo existing ep).map fun m ↦ Keyed.set Prod.fst by_fp (fp, m) := by
  rw [mergeOne, hfp]
  simp only [bind, Except.bind, hrow]
  cases mergeTwo existing ep with
  | error exc => rfl
  | ok m => rfl

/-- **When one endpoint more can be merged.** -/
theorem Inventoried.exists_mergeOne_iff (h : Inventoried by_fp seen) :
    (∃ by_fp', mergeOne by_fp ep = .ok by_fp') ↔ (∃ fp, ep.fingerprint = .ok fp) ∧
      ∀ s ∈ seen, s.fingerprint = ep.fingerprint → Hashable s ∧ Hashable ep := by
  cases hfp : ep.fingerprint with
  | error exc =>
    refine iff_of_false ?_ (by rintro ⟨⟨_, ⟨⟩⟩, -⟩)
    rintro ⟨by_fp', hmerge⟩
    rw [mergeOne, hfp] at hmerge
    cases hmerge
  | ok fp =>
    rw [and_iff_right ⟨fp, rfl⟩]
    cases hrow : Keyed.row Prod.fst by_fp fp with
    | none =>
      exact iff_of_true ⟨_, mergeOne_new hfp hrow⟩ fun s hs hsame ↦ absurd hsame (h.unseen hrow s hs)
    | some e =>
      obtain ⟨fp', existing⟩ := e
      obtain rfl : fp' = fp := Keyed.key_of_row hrow
      have hsummary := h.summary _ (Keyed.mem_of_row hrow)
      have hreturns : (∃ by_fp', mergeOne by_fp ep = .ok by_fp') ↔ ∃ m, mergeTwo existing ep = .ok m := by
        rw [mergeOne_known hfp hrow]
        cases mergeTwo existing ep with
        | error exc => exact iff_of_false (by rintro ⟨_, ⟨⟩⟩) (by rintro ⟨_, ⟨⟩⟩)
        | ok m => exact iff_of_true ⟨_, rfl⟩ ⟨m, rfl⟩
      rw [hreturns, exists_mergeTwo_iff, hsummary.hashable]
      constructor
      · rintro ⟨hall, hep⟩ s hs hsame
        exact ⟨hall s ⟨hs, hsame⟩, hep⟩
      · intro hall
        -- a location that has a row was seen
        obtain ⟨s, ⟨hs, hsame⟩, -⟩ := hsummary.attained
        exact ⟨fun s hs ↦ (hall s hs.1 hs.2).1, (hall s hs hsame).2⟩

/-- What one endpoint more does: the row of its location becomes a summary of what was seen of it. -/
theorem Inventoried.exists_set_of_mergeOne (h : Inventoried by_fp seen)
    (hmerge : mergeOne by_fp ep = .ok by_fp') :
    ∃ fp m, ep.fingerprint = .ok fp ∧ by_fp' = Keyed.set Prod.fst by_fp (fp, m) ∧
      m.fingerprint = .ok fp ∧ Summary m fun s ↦ s ∈ seen ++ [ep] ∧ s.fingerprint = .ok fp := by
  cases hfp : ep.fingerprint with
  | error exc =>
    rw [mergeOne, hfp] at hmerge
    cases hmerge
  | ok fp =>
    cases hrow : Keyed.row Prod.fst by_fp fp with
    | none =>
      refine ⟨fp, ep, rfl, ?_, hfp, (Summary.refl ep).congr fun s ↦ ?_⟩
      · have hnew : (fp, ep).1 ∉ by_fp.map Prod.fst := Keyed.row_eq_none_iff.1 hrow
        rw [Keyed.set_of_notMem hnew]
        exact Except.ok.inj (hmerge.symm.trans (mergeOne_new hfp hrow))
      · rw [List.mem_append, List.mem_singleton, or_and_right]
        constructor
        · rintro rfl
          exact .inr ⟨rfl, hfp⟩
        · rintro (⟨hs, hsame⟩ | ⟨hs, -⟩)
          · exact absurd hsame (h.unseen hrow s hs)
          · exact hs
    | some e =>
      obtain ⟨fp', existing⟩ := e
      obtain rfl : fp' = fp := Keyed.key_of_row hrow
      have hmem := Keyed.mem_of_row hrow
      rw [mergeOne_known hfp hrow] at hmerge
      cases hm : mergeTwo existing ep with
      | error exc =>
        rw [hm] at hmerge
        cases hmerge
      | ok m =>
        rw [hm] at hmerge
        refine ⟨fp', m, rfl, (Except.ok.inj hmerge).symm, ?_, ?_⟩
        · exact (fingerprint_of_mergeTwo ((h.fingerprint _ hmem).trans hfp.symm) hm).trans hfp
        · refine ((h.summary _ hmem).mergeTwo hm).congr fun s ↦ ?_
          rw [List.mem_append, List.mem_singleton, or_and_right]
          refine or_congr_right ⟨?_, fun hs ↦ hs.1⟩
          rintro rfl
          exact ⟨rfl, hfp⟩

/-- **One endpoint more.** -/
theorem Inventoried.of_mergeOne (h : Inventoried by_fp seen) (hmerge : mergeOne by_fp ep = .ok by_fp') :
    Inventoried by_fp' (seen ++ [ep]) := by
  obtain ⟨fp, m, hfp, rfl, hm, hsummary⟩ := h.exists_set_of_mergeOne hmerge
  have hnodup := Keyed.nodup_set h.nodup (fp, m)
  -- the one row of the location is the new one
  have hrest : ∀ e ∈ Keyed.set Prod.fst by_fp (fp, m), e = (fp, m) ∨ e ∈ by_fp ∧ fp ≠ e.1 := by
    intro e he
    by_cases heq : fp = e.1
    · left
      have hself : Keyed.row Prod.fst (Keyed.set Prod.fst by_fp (fp, m)) fp = some (fp, m) := by
        rw [Keyed.row_set, if_pos rfl]
      have hin : e ∈ (Keyed.set Prod.fst by_fp (fp, m)).filter (·.1 = fp) :=
        List.mem_filter.2 ⟨he, decide_eq_true heq.symm⟩
      rw [Keyed.filter_of_row hnodup hself] at hin
      exact List.mem_singleton.1 hin
    · right
      refine ⟨(Keyed.mem_set he).resolve_left ?_, heq⟩
      rintro rfl
      exact heq rfl
  refine ⟨hnodup, fun e he ↦ ?_, fun s hs ↦ ?_, fun e he ↦ ?_⟩
  · rcases hrest e he with rfl | ⟨he, -⟩
    · exact hm
    · exact h.fingerprint e he
  · rcases List.mem_append.1 hs with hs | hs
    · obtain ⟨k, hk, hsk⟩ := h.known s hs
      refine ⟨k, Keyed.mem_keys_set.2 ?_, hsk⟩
      rw [List.map_append]
      exact List.mem_append_left _ hk
    · rw [List.mem_singleton.1 hs]
      refine ⟨fp, Keyed.mem_keys_set.2 ?_, hfp⟩
      rw [List.map_append]
      exact List.mem_append_right _ (List.mem_singleton_self fp)
  · rcases hrest e he with rfl | ⟨he, hne⟩
    · exact hsummary
    · -- a location other than this one has no source more
      refine (h.summary e he).congr fun s ↦ ?_
      rw [List.mem_append, List.mem_singleton, or_and_right]
      refine (or_iff_left ?_).symm
      rintro ⟨rfl, hsame⟩
      exact hne (Except.ok.inj (hfp.symm.trans hsame))

omit [DigitTables] n in
theorem mergeable_append [NumberTables] [DigitTables] {seen : List DiscoveredEndpoint}
    {ep : DiscoveredEndpoint} :
    Mergeable (seen ++ [ep]) ↔ Mergeable seen ∧ (∃ fp, ep.fingerprint = .ok fp) ∧
      ∀ s ∈ seen, s.fingerprint = ep.fingerprint → Hashable s ∧ Hashable ep := by
  rw [Mergeable, Mergeable, List.pairwise_append]
  simp only [List.forall_mem_append, List.forall_mem_singleton, List.pairwise_singleton, true_and]
  exact and_and_and_comm

/-- **A list can be merged** exactly if it is mergeable. -/
theorem Inventoried.exists_foldlM_iff {eps : List DiscoveredEndpoint} (h : Inventoried by_fp seen)
    (hseen : Mergeable seen) :
    (∃ by_fp', eps.foldlM mergeOne by_fp = .ok by_fp') ↔ Mergeable (seen ++ eps) := by
  induction eps generalizing by_fp seen with
  | nil =>
    rw [List.append_nil]
    exact iff_of_true ⟨by_fp, rfl⟩ hseen
  | cons ep eps ih =>
    rw [List.foldlM_cons, ← List.singleton_append, ← List.append_assoc]
    cases hone : mergeOne by_fp ep with
    | error exc =>
      refine iff_of_false (fun ⟨_, h⟩ ↦ nomatch h) fun hall ↦ ?_
      -- a prefix of a mergeable list is mergeable
      have hprefix : Mergeable (seen ++ [ep]) :=
        ⟨fun e he ↦ hall.1 e (List.mem_append_left _ he), (List.pairwise_append.1 hall.2).1⟩
      obtain ⟨by_fp', hmerge⟩ := h.exists_mergeOne_iff.2 (mergeable_append.1 hprefix).2
      cases hone.symm.trans hmerge
    | ok by_fp₁ =>
      exact ih (h.of_mergeOne hone) (mergeable_append.2 ⟨hseen, h.exists_mergeOne_iff.1 ⟨by_fp₁, hone⟩⟩)

theorem Inventoried.of_foldlM {eps : List DiscoveredEndpoint} (h : Inventoried by_fp seen)
    (hfold : eps.foldlM mergeOne by_fp = .ok by_fp') : Inventoried by_fp' (seen ++ eps) := by
  induction eps generalizing by_fp seen with
  | nil =>
    rw [List.append_nil, ← Except.ok.inj hfold]
    exact h
  | cons ep eps ih =>
    rw [List.foldlM_cons] at hfold
    cases hone : mergeOne by_fp ep with
    | error exc =>
      rw [hone] at hfold
      cases hfold
    | ok by_fp₁ =>
      rw [hone] at hfold
      have hrest := ih (h.of_mergeOne hone) hfold
      rwa [List.append_assoc, List.singleton_append] at hrest

/-- **Merging what has distinct locations** changes nothing. -/
theorem foldlM_of_distinct {rows by_fp : List (Text × DiscoveredEndpoint)}
    (hfingerprint : ∀ e ∈ rows, e.2.fingerprint = .ok e.1)
    (hnodup : ((by_fp ++ rows).map Prod.fst).Nodup) :
    (rows.map Prod.snd).foldlM mergeOne by_fp = .ok (by_fp ++ rows) := by
  induction rows generalizing by_fp with
  | nil =>
    rw [List.append_nil]
    rfl
  | cons e rows ih =>
    obtain ⟨he, hrows⟩ := List.forall_mem_cons.1 hfingerprint
    have hnew : e.1 ∉ by_fp.map Prod.fst := by
      rw [List.map_append, List.map_cons] at hnodup
      exact fun hmem ↦ (List.nodup_append.1 hnodup).2.2 e.1 hmem e.1 List.mem_cons_self rfl
    rw [List.map_cons, List.foldlM_cons, mergeOne_new he (Keyed.row_eq_none_iff.2 hnew)]
    have hsame : by_fp ++ e :: rows = by_fp ++ [e] ++ rows := by
      rw [List.append_assoc, List.singleton_append]
    rw [hsame] at hnodup ⊢
    exact ih hrows hnodup

/-! ### The laws -/

/-- `ms` is what merging makes of `eps`. -/
structure MergeLaws (eps ms : List DiscoveredEndpoint) : Prop where
  /-- No two results share a fingerprint. -/
  distinct : ms.Pairwise fun m m' ↦ m.fingerprint ≠ m'.fingerprint
  /-- The fingerprints are those of the input. -/
  fingerprints : ∀ fp, (∃ m ∈ ms, m.fingerprint = fp) ↔ ∃ e ∈ eps, e.fingerprint = fp
  /-- Each result says what all inputs with its fingerprint say together. -/
  summary : ∀ m ∈ ms, Summary m fun e ↦ e ∈ eps ∧ e.fingerprint = m.fingerprint

/-- The results of two lists agree on each fingerprint. -/
def SameMerge (ms ms' : List DiscoveredEndpoint) : Prop :=
  ∀ m ∈ ms, ∀ m' ∈ ms', m.fingerprint = m'.fingerprint → Agree m m'

theorem Inventoried.laws {eps : List DiscoveredEndpoint} (h : Inventoried by_fp eps) :
    MergeLaws eps (by_fp.map Prod.snd) where
  distinct := by
    rw [List.pairwise_map]
    refine (List.pairwise_map.1 h.nodup).imp_of_mem fun {e e'} he he' hne hsame ↦ hne ?_
    exact Except.ok.inj ((h.fingerprint e he).symm.trans (hsame.trans (h.fingerprint e' he')))
  fingerprints fp := by
    constructor
    · rintro ⟨m, hm, rfl⟩
      obtain ⟨e, he, rfl⟩ := List.mem_map.1 hm
      obtain ⟨s, ⟨hs, hsame⟩, -⟩ := (h.summary e he).attained
      exact ⟨s, hs, hsame.trans (h.fingerprint e he).symm⟩
    · rintro ⟨s, hs, rfl⟩
      obtain ⟨k, hk, hsk⟩ := h.known s hs
      obtain ⟨e, he, rfl⟩ := List.mem_map.1 hk
      exact ⟨e.2, List.mem_map_of_mem he, (h.fingerprint e he).trans hsk.symm⟩
  summary m hm := by
    obtain ⟨e, he, rfl⟩ := List.mem_map.1 hm
    rw [h.fingerprint e he]
    exact h.summary e he

theorem MergeLaws.sameMerge {eps eps' ms ms' : List DiscoveredEndpoint} (h : MergeLaws eps ms)
    (h' : MergeLaws eps' ms') (hperm : eps'.Perm eps) : SameMerge ms ms' := by
  intro m hm m' hm' hsame
  refine (h.summary m hm).agree ((h'.summary m' hm').congr fun e ↦ ?_)
  rw [hperm.mem_iff, hsame]

omit n in
theorem merge_endpoints_eq [NumberTables] (eps : List DiscoveredEndpoint) :
    merge_endpoints eps = (eps.foldlM mergeOne []).map (List.map Prod.snd) := by
  rw [merge_endpoints]
  cases eps.foldlM mergeOne [] with
  | error exc => rfl
  | ok by_fp => rfl

theorem exists_merge_endpoints_iff {eps : List DiscoveredEndpoint} :
    (∃ ms, merge_endpoints eps = .ok ms) ↔ Mergeable eps := by
  have hempty : Mergeable [] := ⟨fun e he ↦ absurd he List.not_mem_nil, List.Pairwise.nil⟩
  rw [← List.nil_append eps, ← Inventoried.nil.exists_foldlM_iff hempty, List.nil_append,
    merge_endpoints_eq]
  cases eps.foldlM mergeOne [] with
  | error exc => exact iff_of_false (fun ⟨_, h⟩ ↦ nomatch h) fun ⟨_, h⟩ ↦ nomatch h
  | ok by_fp => exact iff_of_true ⟨_, rfl⟩ ⟨by_fp, rfl⟩

/-- A result obeys the laws, and merging it again changes nothing. -/
theorem laws_of_merge_endpoints {eps ms : List DiscoveredEndpoint} (h : merge_endpoints eps = .ok ms) :
    MergeLaws eps ms ∧ merge_endpoints ms = .ok ms := by
  rw [merge_endpoints_eq] at h
  cases hfold : eps.foldlM mergeOne [] with
  | error exc =>
    rw [hfold] at h
    cases h
  | ok by_fp =>
    rw [hfold] at h
    obtain rfl := Except.ok.inj h
    have hinv := Inventoried.nil.of_foldlM hfold
    rw [List.nil_append] at hinv
    refine ⟨hinv.laws, ?_⟩
    rw [merge_endpoints_eq, foldlM_of_distinct hinv.fingerprint (by rw [List.nil_append]; exact hinv.nodup)]
    rfl

/-- **When merging obeys its laws**: in this order of the input and in every other, and once more on the
result. -/
theorem merge_laws_iff (eps : List DiscoveredEndpoint) :
    (∃ ms, merge_endpoints eps = .ok ms ∧ MergeLaws eps ms ∧ merge_endpoints ms = .ok ms ∧
      ∀ eps', eps'.Perm eps → ∃ ms', merge_endpoints eps' = .ok ms' ∧ SameMerge ms ms') ↔
      Mergeable eps := by
  constructor
  · rintro ⟨ms, hms, -⟩
    exact exists_merge_endpoints_iff.1 ⟨ms, hms⟩
  · intro hmergeable
    obtain ⟨ms, hms⟩ := exists_merge_endpoints_iff.2 hmergeable
    obtain ⟨hlaws, hagain⟩ := laws_of_merge_endpoints hms
    refine ⟨ms, hms, hlaws, hagain, fun eps' hperm ↦ ?_⟩
    have hsymm : ∀ {e e' : DiscoveredEndpoint},
        (e.fingerprint = e'.fingerprint → Hashable e ∧ Hashable e') →
          e'.fingerprint = e.fingerprint → Hashable e' ∧ Hashable e :=
      fun h hsame ↦ (h hsame.symm).symm
    obtain ⟨ms', hms'⟩ := exists_merge_endpoints_iff.2
      ⟨fun e he ↦ hmergeable.1 e (hperm.mem_iff.1 he), (hperm.pairwise_iff hsymm).2 hmergeable.2⟩
    exact ⟨ms', hms', hlaws.sameMerge (laws_of_merge_endpoints hms').1 hperm⟩

end

/-! ### A name that is a list -/

section

attribute [local instance] asciiTables asciiDigits plainNumbers

/-- A query parameter with a list for a name, as a YAML document can have it. -/
def listedEndpoint : DiscoveredEndpoint where
  method := "GET".toList
  url := "https://app.example/users/1".toList
  provenance := .OPENAPI
  path_template := "/users/{id}".toList
  parameters := [Dict.recipe [("name", .arr [.text "a"]), ("in", .text "query")]]

/-- Two reports of it have no merge. -/
theorem merge_raises : ¬∃ ms, merge_endpoints [listedEndpoint, listedEndpoint] = .ok ms := by
  rw [exists_merge_endpoints_iff]
  rintro ⟨-, hpairwise⟩
  obtain ⟨hhashable, -⟩ := (List.pairwise_cons.1 hpairwise).1 listedEndpoint List.mem_cons_self rfl
  obtain ⟨key, hkey⟩ := hhashable _ List.mem_cons_self
  cases hkey

end

end Discovery

end Sentrik
