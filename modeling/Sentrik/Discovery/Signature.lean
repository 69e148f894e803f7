import Mathlib.Data.List.Perm.Basic
import Sentrik.Discovery.Normalize

/-!
# How change-sensitive the surface signature is

Two rows at one location have equal signatures exactly when they agree in what the code keeps of them
(`SameProjection`), the digest having no collision on them. That is less than what is stored: the names
and locations of the parameters are folded to lower case and joined by a colon, their types and
required flags are dropped, and of the body schema only the outermost keys are left — for an endpoint
from a specification, always the same two.

## Main results

* `signature_eq_iff`: equality of signatures, in terms of the rows.
* `changeSensitive_iff`: an inventory and the one before it are compared change-sensitively, and
  planning takes up every changed endpoint, exactly when all rows can be read and no two rows that
  differ agree in what is kept.
-/

namespace Sentrik

namespace Discovery

/-! ### Sameness of rows -/

/-- What a row stores of a parameter, up to the order of keys. -/
structure Aspects where
  name : Option Json
  location : Option Json
  type : Option Json
  required : Option Json

def aspects (p : Dict) : Aspects where
  name := (p.get? "name".toList).map JsonText.sortKeys
  location := (p.get? "in".toList).map JsonText.sortKeys
  type := (p.get? "type".toList).map JsonText.sortKeys
  required := (p.get? "required".toList).map JsonText.sortKeys

/-- The rows differ in something testable. -/
def Differs (r r' : EndpointRow) : Prop :=
  {a | a ∈ r.parameters.map aspects} ≠ {a | a ∈ r'.parameters.map aspects} ∨
    r.auth_required ≠ r'.auth_required ∨ {x | x ∈ r.roles} ≠ {x | x ∈ r'.roles} ∨
    JsonText.sortKeys (.obj r.request_body_schema) ≠ JsonText.sortKeys (.obj r'.request_body_schema) ∨
    r.api_version ≠ r'.api_version

/-- The rows are equal in everything testable, up to the order of lists. -/
structure SameSurface (r r' : EndpointRow) : Prop where
  parameters : (r.parameters.map aspects).Perm (r'.parameters.map aspects)
  auth_required : r.auth_required = r'.auth_required
  roles : r.roles.Perm r'.roles
  body : JsonText.sortKeys (.obj r.request_body_schema) =
    JsonText.sortKeys (.obj r'.request_body_schema)
  api_version : r.api_version = r'.api_version

section

variable [u : UnicodeTables]

/-- The rows agree in what the code keeps of them. -/
structure SameProjection (r r' : EndpointRow) : Prop where
  parameters : ((r.parameters.filter named).map label).Perm ((r'.parameters.filter named).map label)
  auth_required : r.auth_required = r'.auth_required
  roles : (r.roles.filter (· ≠ [])).Perm (r'.roles.filter (· ≠ []))
  body : (r.request_body_schema.map Prod.fst).Perm (r'.request_body_schema.map Prod.fst)
  api_version : r.api_version = r'.api_version

/-- The names and locations of the named parameters are texts. -/
def Labelled (r : EndpointRow) : Prop := ∀ p ∈ r.parameters, named p = true → ∃ t, label p = .ok t

/-! ### The canonical document -/

omit u in
/-- Sorting forgets the order and nothing else. -/
theorem sorted_eq_iff {l l' : List Text} : sorted l = sorted l' ↔ l.Perm l' := by
  constructor
  · intro h
    have hl : (sorted l).Perm l := List.perm_insertionSort _ l
    have hl' : (sorted l').Perm l' := List.perm_insertionSort _ l'
    exact hl.symm.trans (h ▸ hl')
  · intro h
    have hperm : (sorted l).Perm (sorted l') :=
      (List.perm_insertionSort _ l).trans (h.trans (List.perm_insertionSort _ l').symm)
    exact hperm.eq_of_sortedLE List.sortedLE_insertionSort List.sortedLE_insertionSort

/-- An entry of the canonical document, printed: the key is a constant of the code. -/
def entry (key : String) (value : Text) : Text := '"' :: (key.toList ++ ('"' :: ':' :: value))

omit u in
theorem canonical_eq (s : Surface) : s.canonical =
    '\x7b' :: (entry "api_version" (JsonText.dumpsText s.api_version) ++
      ',' :: (entry "auth" (JsonText.dumpsBool s.auth) ++
        ',' :: (entry "body" (JsonText.dumpsTexts s.body) ++
          ',' :: (entry "fp" (JsonText.dumpsText s.fp) ++
            ',' :: (entry "params" (JsonText.dumpsTexts s.params) ++
              ',' :: (entry "roles" (JsonText.dumpsTexts s.roles) ++ ['\x7d'])))))) := by
  rw [Surface.canonical, Surface.payload, JsonText.dumps]
  simp only [JsonText.dumpsFields, SelfDelimiting.joined, JsonText.dumps_arr_texts]
  rw [JsonText.dumps, JsonText.dumps, JsonText.dumps]
  rfl

omit u in
/-- **The canonical document determines the surface.** -/
theorem canonical_injective : Function.Injective Surface.canonical := by
  intro s s' h
  rw [canonical_eq, canonical_eq] at h
  have htext := JsonText.dumpsText_selfDelimiting
  have htexts := JsonText.dumpsTexts_selfDelimiting
  simp only [entry, List.cons_append, List.append_assoc, List.cons.injEq, true_and,
    List.append_cancel_left_eq] at h
  obtain ⟨hversion, h⟩ := htext h
  simp only [List.cons.injEq, true_and, List.append_cancel_left_eq] at h
  obtain ⟨hauth, h⟩ := JsonText.dumpsBool_selfDelimiting h
  simp only [List.cons.injEq, true_and, List.append_cancel_left_eq] at h
  obtain ⟨hbody, h⟩ := htexts h
  simp only [List.cons.injEq, true_and, List.append_cancel_left_eq] at h
  obtain ⟨hfp, h⟩ := htext h
  simp only [List.cons.injEq, true_and, List.append_cancel_left_eq] at h
  obtain ⟨hparams, h⟩ := htexts h
  simp only [List.cons.injEq, true_and, List.append_cancel_left_eq] at h
  obtain ⟨hroles, -⟩ := htexts h
  cases s
  cases s'
  simp_all only

omit u in
/-- A value is true in a condition whatever the order of its keys. -/
theorem truthy_sortKeys (v : Json) : (JsonText.sortKeys v).truthy = v.truthy := by
  cases v with
  | arr items =>
    cases items with
    | nil => rw [JsonText.sortKeys, JsonText.sortKeysItems]
    | cons i rest =>
      rw [JsonText.sortKeys, JsonText.sortKeysItems]
      rfl
  | obj fields =>
    have hempty : ∀ l : Dict, (l.insertionSort fun a b ↦ a.1 ≤ b.1).isEmpty = l.isEmpty := by
      intro l
      rw [Bool.eq_iff_iff, List.isEmpty_iff_length_eq_zero, List.isEmpty_iff_length_eq_zero,
        List.length_insertionSort]
    rw [JsonText.sortKeys]
    show (!(List.insertionSort _ _).isEmpty) = !fields.isEmpty
    rw [hempty]
    cases fields with
    | nil => rw [JsonText.sortKeysFields]
    | cons e rest =>
      rw [JsonText.sortKeysFields]
      rfl
  | _ => rw [JsonText.sortKeys]

omit u in
theorem orNone_sortKeys (value : Option Json) :
    Json.orNone (value.map JsonText.sortKeys) = (Json.orNone value).map JsonText.sortKeys := by
  cases value with
  | none => rfl
  | some v =>
    rw [Json.orNone, Json.orNone, Option.map_some, Option.filter_some, Option.filter_some,
      truthy_sortKeys]
    split <;> rfl

/-- What is kept of a value is a text or nothing, so the order of keys does not matter for it. -/
theorem lowered_sortKeys (value : Option Json) (default : Text) :
    lowered (value.map JsonText.sortKeys) default = lowered value default := by
  rw [lowered, lowered, orNone_sortKeys]
  cases Json.orNone value with
  | none => rfl
  | some v => cases v <;> rw [Option.map_some, JsonText.sortKeys]

/-- The labels of the named parameters, from what is stored of them. -/
def Aspects.label (a : Aspects) : Except Raised Text := do
  let name ← lowered a.name []
  let location ← lowered a.location "query".toList
  return name ++ ':' :: location

theorem labels_eq (l : List Dict) : (l.filter named).map label =
    ((l.map aspects).filter fun a ↦ (Json.orNone a.name).isSome).map Aspects.label := by
  rw [List.filter_map, List.map_map]
  have hnamed : (fun a : Aspects ↦ (Json.orNone a.name).isSome) ∘ aspects = named := by
    funext p
    show (Json.orNone ((p.get? "name".toList).map JsonText.sortKeys)).isSome = named p
    rw [orNone_sortKeys, Option.isSome_map, named]
  have hlabel : Aspects.label ∘ aspects = label := by
    funext p
    rw [Function.comp_apply, Aspects.label, aspects, lowered_sortKeys, lowered_sortKeys, label]
  rw [hnamed, hlabel]

/-- What is equal up to the order of lists agrees in what is kept. -/
theorem SameSurface.sameProjection {r r' : EndpointRow} (h : SameSurface r r') :
    SameProjection r r' := by
  refine ⟨?_, h.auth_required, h.roles.filter _, JsonText.keys_perm_of_sortKeys_eq h.body,
    h.api_version⟩
  rw [labels_eq, labels_eq]
  exact (h.parameters.filter _).map _

omit u in
/-- What is equal up to the order of lists does not differ. -/
theorem SameSurface.not_differs {r r' : EndpointRow} (h : SameSurface r r') : ¬Differs r r' := by
  rintro (hparams | hauth | hroles | hbody | hversion)
  · exact hparams (Set.ext fun a ↦ h.parameters.mem_iff)
  · exact hauth h.auth_required
  · exact hroles (Set.ext fun x ↦ h.roles.mem_iff)
  · exact hbody h.body
  · exact hversion h.api_version

/-! ### Reading a row -/

theorem labelled_iff {r : EndpointRow} : Labelled r ↔
    ∃ labels : List Text, (r.parameters.filter named).map label = labels.map .ok := by
  constructor
  · intro h
    suffices hall : ∀ l : List Dict, (∀ p ∈ l, ∃ t, label p = .ok t) →
        ∃ labels : List Text, l.map label = labels.map .ok from
      hall _ fun p hp ↦ h p (List.mem_filter.1 hp).1 (List.mem_filter.1 hp).2
    intro l
    induction l with
    | nil => exact fun _ ↦ ⟨[], rfl⟩
    | cons p l ih =>
      intro hl
      obtain ⟨t, ht⟩ := hl p List.mem_cons_self
      obtain ⟨labels, hlabels⟩ := ih fun q hq ↦ hl q (List.mem_cons_of_mem _ hq)
      exact ⟨t :: labels, by rw [List.map_cons, List.map_cons, ht, hlabels]⟩
  · rintro ⟨labels, hlabels⟩ p hp hnamed
    have hmem : label p ∈ labels.map Except.ok := by
      rw [← hlabels]
      exact List.mem_map_of_mem (List.mem_filter.2 ⟨hp, hnamed⟩)
    obtain ⟨t, -, ht⟩ := List.mem_map.1 hmem
    exact ⟨t, ht.symm⟩

variable [DigitTables]

/-- The row has a surface: its URL can be split, and its parameters be labelled. -/
structure Readable (r : EndpointRow) : Prop where
  located : ∃ fp, r.fingerprint = .ok fp
  labelled : Labelled r

/-- Both rows have the same location fingerprint. -/
def SameLocation (r r' : EndpointRow) : Prop :=
  ∃ fp, r.fingerprint = .ok fp ∧ r'.fingerprint = .ok fp

/-- **The surface of a row.** -/
theorem surface_eq_ok_iff {r : EndpointRow} {s : Surface} : r.surface = .ok s ↔
    ∃ labels fp, (r.parameters.filter named).map label = labels.map .ok ∧ r.fingerprint = .ok fp ∧
      s = {
        fp
        params := sorted labels
        auth := r.auth_required
        roles := sorted (r.roles.filter (· ≠ []))
        body := sorted (r.request_body_schema.map Prod.fst)
        api_version := r.api_version } := by
  have hsurface : r.surface = ((r.parameters.filter named).mapM label).bind fun labels ↦
      r.fingerprint.bind fun fp ↦ .ok {
        fp
        params := sorted labels
        auth := r.auth_required
        roles := sorted (r.roles.filter (· ≠ []))
        body := sorted (r.request_body_schema.map Prod.fst)
        api_version := r.api_version } := rfl
  rw [hsurface]
  constructor
  · intro h
    cases hlabels : (r.parameters.filter named).mapM label with
    | error e =>
      rw [hlabels] at h
      cases h
    | ok labels =>
      rw [hlabels] at h
      cases hfp : r.fingerprint with
      | error e =>
        rw [hfp] at h
        cases h
      | ok fp =>
        rw [hfp] at h
        exact ⟨labels, fp, mapM_eq_ok_iff.1 hlabels, rfl, (Except.ok.inj h).symm⟩
  · rintro ⟨labels, fp, hlabels, hfp, rfl⟩
    rw [mapM_eq_ok_iff.2 hlabels, hfp]
    rfl

theorem readable_iff {r : EndpointRow} : Readable r ↔ ∃ s, r.surface = .ok s := by
  constructor
  · rintro ⟨⟨fp, hfp⟩, hlabelled⟩
    obtain ⟨labels, hlabels⟩ := labelled_iff.1 hlabelled
    exact ⟨_, surface_eq_ok_iff.2 ⟨labels, fp, hlabels, hfp, rfl⟩⟩
  · rintro ⟨s, hs⟩
    obtain ⟨labels, fp, hlabels, hfp, -⟩ := surface_eq_ok_iff.1 hs
    exact ⟨⟨fp, hfp⟩, labelled_iff.2 ⟨labels, hlabels⟩⟩

/-- Two rows at one location have one surface exactly when they agree in what is kept. -/
theorem surface_eq_iff {r r' : EndpointRow} {s s' : Surface} (hs : r.surface = .ok s)
    (hs' : r'.surface = .ok s') (hloc : SameLocation r r') : s = s' ↔ SameProjection r r' := by
  obtain ⟨labels, fp, hlabels, hfp, rfl⟩ := surface_eq_ok_iff.1 hs
  obtain ⟨labels', fp', hlabels', hfp', rfl⟩ := surface_eq_ok_iff.1 hs'
  obtain ⟨fp₀, h₀, h₀'⟩ := hloc
  obtain rfl : fp = fp₀ := Except.ok.inj (hfp.symm.trans h₀)
  obtain rfl : fp' = fp := Except.ok.inj (hfp'.symm.trans h₀')
  have hok : Function.Injective (Except.ok : Text → Except Raised Text) := fun _ _ h ↦ Except.ok.inj h
  constructor
  · intro h
    obtain ⟨-, hparams, hauth, hroles, hbody, hversion⟩ := Surface.mk.inj h
    refine ⟨?_, hauth, sorted_eq_iff.1 hroles, sorted_eq_iff.1 hbody, hversion⟩
    rw [hlabels, hlabels']
    exact (sorted_eq_iff.1 hparams).map _
  · rintro ⟨hparams, hauth, hroles, hbody, hversion⟩
    rw [hlabels, hlabels', List.map_perm_map_iff hok] at hparams
    rw [sorted_eq_iff.2 hparams, hauth, sorted_eq_iff.2 hroles, sorted_eq_iff.2 hbody, hversion]

/-! ### Signatures -/

theorem signature_eq (r : EndpointRow) :
    r._endpoint_signature = r.surface.map fun s ↦ Sha1.hexdigest s.canonical := rfl

/-- The digest has no collision between a surface of the first inventory and one of the second. -/
def CollisionFree (prev_rows endpoints : List EndpointRow) : Prop :=
  ∀ p ∈ prev_rows, ∀ e ∈ endpoints, ∀ s s', p.surface = .ok s → e.surface = .ok s' →
    Sha1.hexdigest s.canonical = Sha1.hexdigest s'.canonical → s.canonical = s'.canonical

/-- A pair of signatures is compared without a collision. -/
theorem signature_eq_iff {r r' : EndpointRow} {s s' : Surface} (hs : r.surface = .ok s)
    (hs' : r'.surface = .ok s') (hloc : SameLocation r r')
    (hfree : Sha1.hexdigest s.canonical = Sha1.hexdigest s'.canonical → s.canonical = s'.canonical) :
    Sha1.hexdigest s.canonical = Sha1.hexdigest s'.canonical ↔ SameProjection r r' := by
  rw [← surface_eq_iff hs hs' hloc]
  constructor
  · intro h
    exact canonical_injective (hfree h)
  · intro h
    rw [h]

/-- **Change-sensitive.** Rows that differ have different signatures, and rows that are equal up to the
order of lists have one. -/
def ChangeSensitive (r r' : EndpointRow) : Prop :=
  (Differs r r' → ∃ x x', r._endpoint_signature = .ok x ∧ r'._endpoint_signature = .ok x' ∧ x ≠ x') ∧
    (SameSurface r r' → ∃ x, r._endpoint_signature = .ok x ∧ r'._endpoint_signature = .ok x)

theorem changeSensitive_of_readable {r r' : EndpointRow} {s s' : Surface} (hs : r.surface = .ok s)
    (hs' : r'.surface = .ok s') (hloc : SameLocation r r')
    (hfree : Sha1.hexdigest s.canonical = Sha1.hexdigest s'.canonical → s.canonical = s'.canonical) :
    ChangeSensitive r r' ↔ (Differs r r' → ¬SameProjection r r') := by
  have hiff := signature_eq_iff hs hs' hloc hfree
  have hx : r._endpoint_signature = .ok (Sha1.hexdigest s.canonical) := by rw [signature_eq, hs]; rfl
  have hx' : r'._endpoint_signature = .ok (Sha1.hexdigest s'.canonical) := by
    rw [signature_eq, hs']
    rfl
  constructor
  · rintro ⟨hdiffers, -⟩ hd hsame
    obtain ⟨x, x', h, h', hne⟩ := hdiffers hd
    rw [hx] at h
    rw [hx'] at h'
    exact hne (Except.ok.inj h ▸ Except.ok.inj h' ▸ hiff.2 hsame)
  · intro hcond
    refine ⟨fun hd ↦ ⟨_, _, hx, hx', fun h ↦ hcond hd (hiff.1 h)⟩, fun hsame ↦ ⟨_, hx, ?_⟩⟩
    rw [hx', hiff.2 hsame.sameProjection]

/-! ### Planning -/

/-- The endpoint was in the inventory before, and is stored otherwise now. -/
def Changed (prev_rows : List EndpointRow) (e : EndpointRow) : Prop :=
  (∃ p ∈ prev_rows, SameLocation p e) ∧ ∀ p ∈ prev_rows, SameLocation p e → Differs p e

/-- Planning of an incremental run takes up every endpoint whose stored surface changed. -/
def Replans (prev_rows endpoints : List EndpointRow) : Prop :=
  ∃ plan, planEndpoints prev_rows endpoints = .ok plan ∧
    ∀ e ∈ endpoints, Changed prev_rows e → e ∈ plan

theorem signature_of_readable {r : EndpointRow} :
    Readable r ↔ ∃ x, r._endpoint_signature = .ok x := by
  rw [readable_iff, signature_eq]
  constructor
  · rintro ⟨s, hs⟩
    exact ⟨Sha1.hexdigest s.canonical, by rw [hs]; rfl⟩
  · rintro ⟨x, hx⟩
    cases hs : r.surface with
    | error e =>
      rw [hs] at hx
      cases hx
    | ok s => exact ⟨s, rfl⟩

/-- A loop over readable rows has their signatures. -/
theorem exists_signatures {l : List EndpointRow} (h : ∀ r ∈ l, Readable r) :
    ∃ xs : List Text, l.map EndpointRow._endpoint_signature = xs.map .ok := by
  induction l with
  | nil => exact ⟨[], rfl⟩
  | cons r l ih =>
    obtain ⟨x, hx⟩ := signature_of_readable.1 (h r List.mem_cons_self)
    obtain ⟨xs, hxs⟩ := ih fun q hq ↦ h q (List.mem_cons_of_mem _ hq)
    exact ⟨x :: xs, by rw [List.map_cons, List.map_cons, hx, hxs]⟩

theorem readable_of_signatures {l : List EndpointRow} {xs : List Text}
    (h : l.map EndpointRow._endpoint_signature = xs.map .ok) {r : EndpointRow} (hr : r ∈ l) :
    Readable r := by
  have hmem : r._endpoint_signature ∈ xs.map Except.ok := by
    rw [← h]
    exact List.mem_map_of_mem hr
  obtain ⟨x, -, hx⟩ := List.mem_map.1 hmem
  exact signature_of_readable.2 ⟨x, hx.symm⟩

/-- Each row stands beside its own signature. -/
theorem mem_zip_signatures {l : List EndpointRow} {xs : List Text}
    (h : l.map EndpointRow._endpoint_signature = xs.map .ok) {r : EndpointRow} {x : Text}
    (hr : r ∈ l) (hx : r._endpoint_signature = .ok x) : (r, x) ∈ l.zip xs := by
  induction l generalizing xs with
  | nil => cases hr
  | cons q l ih =>
    cases xs with
    | nil => cases h
    | cons y xs =>
      obtain ⟨hy, hrest⟩ := List.cons.inj h
      rw [List.zip_cons_cons]
      rcases List.mem_cons.1 hr with rfl | hr
      · obtain rfl := Except.ok.inj (hx.symm.trans hy)
        exact List.mem_cons_self
      · exact List.mem_cons_of_mem _ (ih hrest hr)

theorem planEndpoints_eq (prev_rows endpoints : List EndpointRow) :
    planEndpoints prev_rows endpoints =
      (prev_rows.mapM EndpointRow._endpoint_signature).bind fun prev_signatures ↦
        (endpoints.mapM EndpointRow._endpoint_signature).bind fun signatures ↦
          .ok (((endpoints.zip signatures).filter fun p ↦ !prev_signatures.contains p.2).map
            Prod.fst) := rfl

/-- **Planning has a result exactly when all rows can be read.** -/
theorem readable_of_planEndpoints {prev_rows endpoints plan : List EndpointRow}
    (h : planEndpoints prev_rows endpoints = .ok plan) {r : EndpointRow}
    (hr : r ∈ prev_rows ∨ r ∈ endpoints) : Readable r := by
  rw [planEndpoints_eq] at h
  cases hprev : prev_rows.mapM EndpointRow._endpoint_signature with
  | error e =>
    rw [hprev] at h
    cases h
  | ok xs =>
    rw [hprev] at h
    cases hnow : endpoints.mapM EndpointRow._endpoint_signature with
    | error e =>
      rw [hnow] at h
      cases h
    | ok ys =>
      rcases hr with hr | hr
      · exact readable_of_signatures (mapM_eq_ok_iff.1 hprev) hr
      · exact readable_of_signatures (mapM_eq_ok_iff.1 hnow) hr

/-- Of readable rows, planning keeps those whose signature is new. -/
theorem planEndpoints_of_readable {prev_rows endpoints : List EndpointRow}
    (h : ∀ r, r ∈ prev_rows ∨ r ∈ endpoints → Readable r) :
    ∃ plan, planEndpoints prev_rows endpoints = .ok plan ∧
      ∀ e ∈ endpoints, (∀ p ∈ prev_rows, p._endpoint_signature ≠ e._endpoint_signature) →
        e ∈ plan := by
  obtain ⟨xs, hxs⟩ := exists_signatures fun r hr ↦ h r (Or.inl hr)
  obtain ⟨ys, hys⟩ := exists_signatures fun r hr ↦ h r (Or.inr hr)
  refine ⟨((endpoints.zip ys).filter fun p ↦ !xs.contains p.2).map Prod.fst, ?_, fun e he hnew ↦ ?_⟩
  · rw [planEndpoints_eq, mapM_eq_ok_iff.2 hxs, mapM_eq_ok_iff.2 hys]
    rfl
  · obtain ⟨y, hy⟩ := signature_of_readable.1 (h e (Or.inr he))
    have hfresh : y ∉ xs := by
      intro hmem
      have hok : Except.ok y ∈ prev_rows.map EndpointRow._endpoint_signature := by
        rw [hxs]
        exact List.mem_map_of_mem hmem
      obtain ⟨p, hp, heq⟩ := List.mem_map.1 hok
      exact hnew p hp (heq.trans hy.symm)
    refine List.mem_map.2 ⟨(e, y), List.mem_filter.2 ⟨mem_zip_signatures hys he hy, ?_⟩, rfl⟩
    simpa using hfresh

/-- **How change-sensitive the signature is.** With no collision of the digest between two inventories:
rows at one location that differ have different signatures, rows equal up to the order of lists have
one, and planning takes up every endpoint that changed — exactly when all rows can be read, and no two
rows at one location differ while they agree in the lower-case labels of their parameters, the
authentication flag, the roles, the outermost keys of the body schema and the version. -/
theorem changeSensitive_iff {prev_rows endpoints : List EndpointRow}
    (hfree : CollisionFree prev_rows endpoints) :
    ((∀ p ∈ prev_rows, ∀ e ∈ endpoints, SameLocation p e → ChangeSensitive p e) ∧
        Replans prev_rows endpoints) ↔
      (∀ r, r ∈ prev_rows ∨ r ∈ endpoints → Readable r) ∧
        ∀ p ∈ prev_rows, ∀ e ∈ endpoints, SameLocation p e → Differs p e → ¬SameProjection p e := by
  constructor
  · rintro ⟨hsensitive, plan, hplan, -⟩
    have hread := fun r ↦ readable_of_planEndpoints hplan (r := r)
    refine ⟨hread, fun p hp e he hloc ↦ ?_⟩
    obtain ⟨s, hs⟩ := readable_iff.1 (hread p (Or.inl hp))
    obtain ⟨s', hs'⟩ := readable_iff.1 (hread e (Or.inr he))
    exact (changeSensitive_of_readable hs hs' hloc (hfree p hp e he s s' hs hs')).1
      (hsensitive p hp e he hloc)
  · rintro ⟨hread, hcond⟩
    have hsensitive : ∀ p ∈ prev_rows, ∀ e ∈ endpoints, SameLocation p e → ChangeSensitive p e := by
      intro p hp e he hloc
      obtain ⟨s, hs⟩ := readable_iff.1 (hread p (Or.inl hp))
      obtain ⟨s', hs'⟩ := readable_iff.1 (hread e (Or.inr he))
      exact (changeSensitive_of_readable hs hs' hloc (hfree p hp e he s s' hs hs')).2
        (hcond p hp e he hloc)
    obtain ⟨plan, hplan, hmem⟩ := planEndpoints_of_readable hread
    refine ⟨hsensitive, plan, hplan, fun e he hchanged ↦ hmem e he fun p hp heq ↦ ?_⟩
    obtain ⟨s, hs⟩ := readable_iff.1 (hread p (Or.inl hp))
    obtain ⟨s', hs'⟩ := readable_iff.1 (hread e (Or.inr he))
    have hdigest : Sha1.hexdigest s.canonical = Sha1.hexdigest s'.canonical := by
      rw [signature_eq, signature_eq, hs, hs'] at heq
      exact Except.ok.inj heq
    -- the fingerprint is part of the surface, so equal signatures are of one location
    have hsurface := canonical_injective (hfree p hp e he s s' hs hs' hdigest)
    have hloc : SameLocation p e := by
      obtain ⟨labels, fp, -, hfp, hs₀⟩ := surface_eq_ok_iff.1 hs
      obtain ⟨labels', fp', -, hfp', hs₀'⟩ := surface_eq_ok_iff.1 hs'
      rw [hs₀, hs₀'] at hsurface
      obtain rfl : fp = fp' := (Surface.mk.inj hsurface).1
      exact ⟨fp, hfp, hfp'⟩
    exact hcond p hp e he hloc (hchanged.2 p hp hloc) ((surface_eq_iff hs hs' hloc).1 hsurface)

end

/-! ### A retest of a changed endpoint -/

section

attribute [local instance] asciiTables asciiDigits

/-- A parameter row, as the parsers write it. -/
def sampleParameter (name location type : String) (required : Bool) : Dict := [
  ("name".toList, .str name.toList), ("in".toList, .str location.toList),
  ("type".toList, .str type.toList), ("required".toList, .bool required)]

/-- An endpoint with one parameter and a body from a specification. -/
def sampleRow (parameter : Dict) (schema : Json) : EndpointRow where
  method := "POST".toList
  url := "https://app.example/users/12".toList
  parameters := [parameter]
  request_body_schema :=
    [("content_type".toList, .str "application/json".toList), ("schema".toList, schema)]

def rowBefore : EndpointRow :=
  sampleRow (sampleParameter "id" "query" "integer" false) (.obj [("type".toList, .str "object".toList)])

/-- The parameter has another type and is required now, and the body has a property. -/
def rowAfter : EndpointRow :=
  sampleRow (sampleParameter "id" "query" "string" true) (.obj [("type".toList, .str "object".toList),
    ("properties".toList, .obj [("admin".toList, .obj [])])])

/-- A parameter was added. -/
def rowExtended : EndpointRow := { rowBefore with
  parameters := rowBefore.parameters ++ [sampleParameter "url" "query" "string" false] }

theorem rowAfter_signature : rowBefore._endpoint_signature = rowAfter._endpoint_signature := by
  decide +kernel

theorem rowAfter_differs : Differs rowBefore rowAfter := by
  refine Or.inl fun h ↦ ?_
  have hmem : aspects (sampleParameter "id" "query" "integer" false) ∈
      rowAfter.parameters.map aspects :=
    (Set.ext_iff.1 h _).1 List.mem_cons_self
  have htype := congrArg Aspects.type (List.mem_singleton.1 hmem)
  have htext : "integer".toList = "string".toList := Json.str.inj (Option.some.inj htype)
  exact absurd htext (by decide)

theorem rowBefore_surface : rowBefore.surface.toOption.isSome = true := by
  decide +kernel

theorem rowExtended_surface : rowExtended.surface.toOption.isSome = true := by
  decide +kernel

theorem rowExtended_signature :
    rowBefore._endpoint_signature ≠ rowExtended._endpoint_signature := by
  decide +kernel

/-- A row with a result has been read. -/
theorem exists_ok {α : Type} {x : Except Raised α} (h : x.toOption.isSome = true) : ∃ a, x = .ok a := by
  cases x with
  | error e => cases h
  | ok a => exact ⟨a, rfl⟩

/-- A parameter whose type and required flag changed, and a body that gained a property, leave the
signature as it was. -/
theorem changedType_not_sensitive :
    ¬∀ r r' : EndpointRow, SameLocation r r' → ChangeSensitive r r' := by
  intro h
  obtain ⟨fp, hfp⟩ := (readable_iff.2 (exists_ok rowBefore_surface)).located
  obtain ⟨x, x', hx, hx', hne⟩ := (h rowBefore rowAfter ⟨fp, hfp, hfp⟩).1 rowAfter_differs
  rw [rowAfter_signature, hx'] at hx
  exact hne (Except.ok.inj hx).symm

theorem changeSensitive_iff_added :
    Replans [rowBefore] [rowExtended] ∧
      (((∀ p ∈ [rowBefore], ∀ e ∈ [rowExtended], SameLocation p e → ChangeSensitive p e) ∧
          Replans [rowBefore] [rowExtended]) ↔
        (∀ r, r ∈ [rowBefore] ∨ r ∈ [rowExtended] → Readable r) ∧
          ∀ p ∈ [rowBefore], ∀ e ∈ [rowExtended], SameLocation p e → Differs p e →
            ¬SameProjection p e) := by
  have hiff := @changeSensitive_iff _ _ [rowBefore] [rowExtended] <| by
    intro p hp e he s s' hs hs' h
    rw [List.mem_singleton.1 hp] at hs
    rw [List.mem_singleton.1 he] at hs'
    refine absurd ?_ rowExtended_signature
    rw [signature_eq, signature_eq, hs, hs']
    exact congrArg Except.ok h
  refine ⟨(hiff.2 ⟨fun r hr ↦ ?_, fun p hp e he _ _ hsame ↦ ?_⟩).2, hiff⟩
  · rcases hr with hr | hr
    · rw [List.mem_singleton.1 hr]
      exact readable_iff.2 (exists_ok rowBefore_surface)
    · rw [List.mem_singleton.1 hr]
      exact readable_iff.2 (exists_ok rowExtended_surface)
  · rw [List.mem_singleton.1 hp, List.mem_singleton.1 he] at hsame
    exact absurd hsame.parameters.length_eq (by decide)

end

end Discovery

end Sentrik
