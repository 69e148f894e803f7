import Sentrik.Services.StorageContainment

/-!
# Reading stored blobs back

`put` sanitizes the key it is given, and returns a reference with the sanitized key, which `get` sanitizes
again. The sanitizer does not keep what it returns in every case: it strips white space and looks for a
drive letter before it drops empty segments and single dots, so a first segment that comes to the front only
then may begin with a blank or have a colon in second place, and a last one that comes to the end only then
may end with a blank. Such a reference is refused, or leads to another object.

Inline references and all other keys are read back, whatever else was stored since under keys that map to
other objects (`roundTrip_iff`).
-/

namespace Sentrik

namespace Storage

section

variable [u : UnicodeTables]

/-! ### The round trip -/

/-- The two keys are accepted, and map to one object. -/
def Backend.SameObject (b : Backend) (key key' : Text) : Prop :=
  ∃ p p', _sanitize_key key = .ok p ∧ _sanitize_key key' = .ok p' ∧
    match b with
    | .db => False
    | .localDir root cwd => target root cwd p = target root cwd p'
    | .s3 _ => p.str = p'.str

/-- The store after more was put into it; what fails changes nothing. -/
def Backend.putAll (b : Backend) (store : Store) (later : List (Text × Bytes)) : Store :=
  later.foldl (fun s p ↦
    match b.put s p.1 p.2 with
    | .ok stored => stored.2
    | .error _ => s) store

/-- What is put under the key is read back through the reference, and through the reference written as JSON
and read again, whatever was stored before, and whatever later under keys that map to other objects. -/
def Backend.RoundTrip (b : Backend) (key : Text) : Prop :=
  ∀ (store store' : Store) (data : Bytes) (ref : ObjectRef), b.put store key data = .ok (ref, store') →
    ∀ later : List (Text × Bytes), (∀ p ∈ later, ¬b.SameObject p.1 key) →
      b.get (b.putAll store' later) ref = .ok data ∧
        ∃ ref', ref.reloaded = some ref' ∧ b.get (b.putAll store' later) ref' = .ok data

/-- Of the segments of the key that are neither empty nor a dot, the first does not begin with white space
and has no colon in second place, and the last does not end with white space. -/
def Settled (key : Text) : Prop :=
  (∀ first, (PosixPath.segments (normalize key)).head? = some first →
    (∀ c, first.head? = some c → u.isSpace c = false) ∧ first[1]? ≠ some ':') ∧
  (∀ last, (PosixPath.segments (normalize key)).getLast? = some last →
    ∀ c, last.getLast? = some c → u.isSpace c = false)

/-! ### The sanitized key, sanitized again -/

omit u in
/-- The text of a path of plain segments has these segments. -/
theorem segments_intercalate {parts : List Text} (hne : parts ≠ []) (h : ∀ s ∈ parts, Below s) :
    PosixPath.segments (List.intercalate ['/'] parts) = parts := by
  obtain ⟨first, rest, rfl⟩ := List.exists_cons_of_ne_nil hne
  have hrest : Text.split '/' (Url.pathOf rest) = [] :: rest :=
    Url.split_pathOf fun s hs ↦ (h s (List.mem_cons_of_mem first hs)).2.2.2.1
  have hsplit : Text.split '/' (List.intercalate ['/'] (first :: rest)) = first :: rest := by
    have happend := Text.split_append (h first List.mem_cons_self).2.2.2.1 hrest
    rw [List.append_nil] at happend
    rw [Text.intercalate_cons]
    exact happend
  rw [PosixPath.segments, hsplit]
  refine List.filter_eq_self.2 fun s hs ↦ ?_
  have hs' : s ≠ [] ∧ s ≠ ['.'] := ⟨(h s hs).1, (h s hs).2.1⟩
  simpa using hs'

omit u in
theorem sum_filter_le {α : Type*} (p : α → Bool) (f : α → ℕ) (l : List α) :
    ((l.filter p).map f).sum ≤ (l.map f).sum := by
  induction l with
  | nil => exact le_rfl
  | cons a l ih =>
    rw [List.filter_cons, List.map_cons, List.sum_cons]
    split
    · rw [List.map_cons, List.sum_cons]
      omega
    · omega

omit u in
/-- Dropping segments does not make a path longer. -/
theorem length_segments_le {t : Text} (h : PosixPath.segments t ≠ []) :
    (List.intercalate ['/'] (PosixPath.segments t)).length ≤ t.length := by
  have hsum := sum_filter_le (fun s : Text ↦ s ≠ [] ∧ s ≠ ['.']) (fun s ↦ s.length + 1)
    (Text.split '/' t)
  rw [← PosixPath.segments, Text.sum_length_split, ← Text.length_intercalate '/' h] at hsum
  omega

omit u in
/-- The characters of a path. -/
theorem mem_intercalate {parts : List Text} {c : Char} (h : c ∈ List.intercalate ['/'] parts) :
    c = '/' ∨ ∃ s ∈ parts, c ∈ s := by
  cases parts with
  | nil => exact absurd h List.not_mem_nil
  | cons a l =>
    rw [Text.intercalate_cons] at h
    rcases List.mem_append.1 h with h | h
    · exact .inr ⟨a, List.mem_cons_self, h⟩
    · obtain ⟨s, hs, hc⟩ := List.mem_flatMap.1 h
      rcases List.mem_cons.1 hc with rfl | hc
      · exact .inl rfl
      · exact .inr ⟨s, List.mem_cons_of_mem a hs, hc⟩

omit u in
/-- The ends of the text of a path. -/
theorem ends_intercalate {parts : List Text} {first last : Text} (hfirst : parts.head? = some first)
    (hlast : parts.getLast? = some last) (h : ∀ s ∈ parts, Below s) :
    (List.intercalate ['/'] parts).head? = first.head? ∧
      (List.intercalate ['/'] parts).getLast? = last.getLast? ∧
        ((List.intercalate ['/'] parts)[1]? = some ':' ↔ first[1]? = some ':') := by
  obtain ⟨rest, rfl⟩ := List.head?_eq_some_iff.1 hfirst
  obtain ⟨c, x, rfl⟩ := List.exists_cons_of_ne_nil (h first List.mem_cons_self).1
  have hne : last ≠ [] := (h last (List.mem_of_getLast? hlast)).1
  rw [Text.intercalate_cons]
  refine ⟨rfl, ?_, ?_⟩
  · -- the text ends with the last segment, whatever stands before it
    cases hrest : rest.getLast? with
    | none =>
      obtain rfl := List.getLast?_eq_none_iff.1 hrest
      cases hlast
      rw [List.flatMap_nil, List.append_nil]
      rfl
    | some last' =>
      obtain ⟨before, rfl⟩ := List.getLast?_eq_some_iff.1 hrest
      rw [← List.cons_append, List.getLast?_concat] at hlast
      cases hlast
      rw [List.flatMap_append, List.flatMap_singleton, ← List.append_assoc, ← List.append_assoc,
        List.getLast?_append_of_ne_nil _ hne]
  · cases x with
    | nil =>
      cases rest with
      | nil => exact Iff.rfl
      | cons s rest =>
        constructor
        · intro hcolon
          exact absurd (Option.some.inj hcolon) (by decide)
        · rintro ⟨⟩
    | cons d x => exact Iff.rfl

/-- A sanitized key is sanitized to itself exactly when the key it came from is settled. -/
theorem resanitize_iff {key : Text} {p : PosixPath} (h : _sanitize_key key = .ok p) :
    _sanitize_key p.str = .ok p ↔ Settled key := by
  obtain ⟨-, hne, hbelow⟩ := below_of_sanitize h
  obtain ⟨⟨-, -, -, -, hdots⟩, rfl⟩ := sanitize_ok_iff.1 h
  dsimp only at hne hbelow
  obtain ⟨first, rest, hcons⟩ := List.exists_cons_of_ne_nil hne
  have hfirst : (PosixPath.segments (normalize key)).head? = some first := by rw [hcons]; rfl
  obtain ⟨last, hlast⟩ : ∃ last, (PosixPath.segments (normalize key)).getLast? = some last :=
    ⟨_, List.getLast?_eq_some_getLast hne⟩
  obtain ⟨hhead, hend, hcolon⟩ := ends_intercalate hfirst hlast hbelow
  have hsegments := segments_intercalate hne hbelow
  have hslashes : slashes (List.intercalate ['/'] (PosixPath.segments (normalize key))) =
      List.intercalate ['/'] (PosixPath.segments (normalize key)) := by
    have hnone : '\\' ∉ List.intercalate ['/'] (PosixPath.segments (normalize key)) := by
      intro hmem
      rcases mem_intercalate hmem with hsep | ⟨s, hs, hback⟩
      · exact absurd hsep (by decide)
      · exact (hbelow s hs).2.2.2.2 hback
    have happend := slashes_append hnone []
    rw [List.append_nil] at happend
    exact happend.trans (List.append_nil _)
  have hsettled : Settled key ↔ ((∀ c, first.head? = some c → u.isSpace c = false) ∧
      first[1]? ≠ some ':') ∧ ∀ c, last.getLast? = some c → u.isSpace c = false := by
    rw [Settled, hfirst, hlast]
    constructor
    · rintro ⟨hf, hl⟩
      exact ⟨hf first rfl, hl last rfl⟩
    · rintro ⟨hf, hl⟩
      refine ⟨?_, ?_⟩
      · rintro _ ⟨⟩
        exact hf
      · rintro _ ⟨⟩
        exact hl
  obtain ⟨c, x, hc⟩ := List.exists_cons_of_ne_nil (hbelow first (hcons ▸ List.mem_cons_self)).1
  obtain ⟨d, hd⟩ : ∃ d, last.getLast? = some d :=
    ⟨_, List.getLast?_eq_some_getLast (hbelow last (List.mem_of_getLast? hlast)).1⟩
  have hheadc : (List.intercalate ['/'] (PosixPath.segments (normalize key))).head? = some c := by
    rw [hhead, hc]
    rfl
  rw [str_relative hne, sanitize_ok_iff, normalize, hslashes, hsettled]
  constructor
  · rintro ⟨⟨-, -, hdrive, hne', -⟩, heq⟩
    -- had something been stripped, fewer characters would be left than the segments have
    have hlength := length_segments_le hne'
    rw [← (PosixPath.mk.inj heq).2] at hlength
    have hfront : u.isSpace c = false := by
      by_contra hspace
      have hlt := Text.length_strip_lt (eq_true_of_ne_false hspace) (.inl hheadc)
      omega
    have hback : u.isSpace d = false := by
      by_contra hspace
      have hlt := Text.length_strip_lt (eq_true_of_ne_false hspace) (.inr (hend.trans hd))
      omega
    have hstrip : Text.strip (List.intercalate ['/'] (PosixPath.segments (normalize key))) =
        List.intercalate ['/'] (PosixPath.segments (normalize key)) := by
      rw [Text.strip_of_head hheadc hfront, Text.rstripSpace_of_last (hend.trans hd) hback]
    rw [hstrip] at hdrive
    refine ⟨⟨fun c' hc' ↦ ?_, fun h1 ↦ hdrive (hcolon.2 h1)⟩, fun d' hd' ↦ ?_⟩
    · rw [hc] at hc'
      cases hc'
      exact hfront
    · rw [hd] at hd'
      cases hd'
      exact hback
  · rintro ⟨⟨hfront, hdrive⟩, hback⟩
    have hstrip : Text.strip (List.intercalate ['/'] (PosixPath.segments (normalize key))) =
        List.intercalate ['/'] (PosixPath.segments (normalize key)) := by
      rw [Text.strip_of_head hheadc (hfront c (by rw [hc]; rfl)),
        Text.rstripSpace_of_last (hend.trans hd) (hback d hd)]
    rw [hstrip, hsegments]
    refine ⟨⟨?_, ?_, fun h1 ↦ hdrive (hcolon.1 h1), hne, hdots⟩, rfl⟩
    · intro hnil
      rw [hnil] at hheadc
      cases hheadc
    · intro hslash
      obtain ⟨r, hr⟩ := Text.startswith_iff.1 hslash
      rw [← hr] at hheadc
      cases hheadc
      refine (hbelow first (hcons ▸ List.mem_cons_self)).2.2.2.1 ?_
      rw [hc]
      exact List.mem_cons_self

/-! ### References -/

omit u in
/-- A reference is what it was after it was written as JSON and read again. -/
theorem optionalField_of_get? {d : Dict} {name : String} {t : Option Text}
    (h : Dict.get? d name.toList = some (optional t)) : optionalField d name = t := by
  rw [optionalField, h]
  cases t <;> rfl

omit u in
theorem reloaded_eq (ref : ObjectRef) : ref.reloaded = some ref := by
  have hok : JsonText.NumbersOk ref.toJson := by
    obtain ⟨backend, key, url, inline, inline_encoding⟩ := ref
    simp only [ObjectRef.toJson, JsonText.NumbersOk, JsonText.NumbersOkFields]
    cases key <;> cases url <;> cases inline <;> cases inline_encoding <;>
      simp [optional, JsonText.NumbersOk]
  rw [ObjectRef.reloaded, JsonText.loads_print hok]
  obtain ⟨backend, key, url, inline, inline_encoding⟩ := ref
  show ObjectRef.ofJson (ObjectRef.toJson ⟨backend, key, url, inline, inline_encoding⟩) = _
  rw [ObjectRef.toJson, ObjectRef.ofJson]
  generalize hd : ([_, _, _, _, _] : Dict) = d
  have hbackend : optionalField d "backend" = some backend := optionalField_of_get? (by rw [← hd]; rfl)
  have hkey : optionalField d "key" = key := optionalField_of_get? (by rw [← hd]; rfl)
  have hurl : optionalField d "url" = url := optionalField_of_get? (by rw [← hd]; rfl)
  have hinline : optionalField d "inline" = inline := optionalField_of_get? (by rw [← hd]; rfl)
  have hencoding : optionalField d "inline_encoding" = inline_encoding :=
    optionalField_of_get? (by rw [← hd]; rfl)
  rw [hbackend, hkey, hurl, hinline, hencoding]
  rfl

/-- An inline reference carries the data. -/
theorem dbGet_dbPut (raw : Bytes) : dbGet (dbPut raw) = .ok raw := by
  cases htext : raw.utf8? with
  | some text =>
    have hwritten := Bytes.utf8_of_utf8? htext
    rw [dbPut, htext, ← hwritten]
    rfl
  | none =>
    have hread := Base64.decode_encode raw
    have hencoding : ¬("base64".toList = []) := by decide
    rw [dbPut, htext]
    simp only [dbGet, Option.getD_some, if_neg hencoding, if_true, hread]

/-! ### What stays -/

/-- What another key is put under does not touch the file. -/
theorem file_of_put {root : PosixPath} {cwd : List Text} {store : Store} {p : PosixPath}
    {content : Bytes} (h : store.files.lookup (target root cwd p) = some (.file content))
    {key key' : Text} (hp : _sanitize_key key = .ok p) {raw : Bytes} {stored : ObjectRef × Store}
    (hother : ¬(Backend.localDir root cwd).SameObject key' key)
    (hput : localPut root cwd store key' raw = .ok stored) :
    stored.2.files.lookup (target root cwd p) = some (.file content) := by
  obtain ⟨ref, store'⟩ := stored
  obtain ⟨p', hp', -, -, -, hframe⟩ := localPut_ok hput
  have hne : target root cwd p ≠ target root cwd p' := fun heq ↦
    hother ⟨p', p, hp', hp, heq.symm⟩
  rcases hframe _ hne with hsame | ⟨-, hnone, -⟩
  · exact hsame.trans h
  · rw [h] at hnone
    cases hnone

/-- What another key is put under does not touch the object. -/
theorem object_of_put {bucket : Text} {store : Store} {p : PosixPath} {body : Bytes}
    (h : store.objects.lookup p.str = some body) {key key' : Text} (hp : _sanitize_key key = .ok p)
    {raw : Bytes} {stored : ObjectRef × Store} (hother : ¬(Backend.s3 bucket).SameObject key' key)
    (hput : s3Put bucket store key' raw = .ok stored) :
    stored.2.objects.lookup p.str = some body := by
  obtain ⟨ref, store'⟩ := stored
  obtain ⟨p', hp', -, -, hobjects⟩ := s3Put_ok hput
  have hne : p.str ≠ p'.str := fun heq ↦ hother ⟨p', p, hp', hp, heq.symm⟩
  rw [hobjects, if_neg hne, h]

/-- What is kept by every later put is kept by all of them. -/
theorem Backend.putAll_induct (b : Backend) (P : Store → Prop) (key : Text) (hstep : ∀ store key' raw
    stored, P store → ¬b.SameObject key' key → b.put store key' raw = .ok stored → P stored.2)
    {store : Store} (h : P store) {later : List (Text × Bytes)}
    (hlater : ∀ p ∈ later, ¬b.SameObject p.1 key) : P (b.putAll store later) := by
  induction later generalizing store with
  | nil => exact h
  | cons p later ih =>
    have hrest : ∀ q ∈ later, ¬b.SameObject q.1 key := fun q hq ↦
      hlater q (List.mem_cons_of_mem p hq)
    have hcons : b.putAll store (p :: later) = b.putAll (match b.put store p.1 p.2 with
      | .ok stored => stored.2
      | .error _ => store) later := rfl
    rw [hcons]
    cases hput : b.put store p.1 p.2 with
    | error e => exact ih h hrest
    | ok stored => exact ih (hstep store p.1 p.2 stored h (hlater p List.mem_cons_self) hput) hrest

/-! ### Getting -/

theorem str_ne_nil {key : Text} {p : PosixPath} (h : _sanitize_key key = .ok p) : p.str ≠ [] := by
  obtain ⟨habsolute, hne, hbelow⟩ := below_of_sanitize h
  obtain ⟨absolute, parts⟩ := p
  obtain rfl : absolute = false := habsolute
  dsimp only at hne hbelow
  obtain ⟨first, rest, rfl⟩ := List.exists_cons_of_ne_nil hne
  rw [str_relative (List.cons_ne_nil first rest), Text.intercalate_cons]
  intro hnil
  exact (hbelow first List.mem_cons_self).1 (List.append_eq_nil_iff.1 hnil).1

/-- Getting a reference to a file sanitizes its key again. -/
theorem localGet_key {key : Text} {p : PosixPath} (h : _sanitize_key key = .ok p) {ref : ObjectRef}
    (href : ref.key = some p.str) (root : PosixPath) (cwd : List Text) (store : Store) :
    localGet root cwd store ref =
      match _sanitize_key p.str with
      | .ok p' => read_bytes store.files (target root cwd p')
      | .error e => .error e := by
  obtain ⟨c, x, hcons⟩ := List.exists_cons_of_ne_nil (str_ne_nil h)
  rw [localGet, href, hcons]
  dsimp only
  rw [← hcons]
  cases hagain : _sanitize_key p.str with
  | error e =>
    rw [_resolve, hagain]
    rfl
  | ok p' =>
    obtain ⟨hpath, hwhere⟩ := resolve_of_sanitize hagain root cwd
    rw [hpath]
    show read_bytes store.files _ = _
    rw [hwhere]
    rfl

/-- Getting a reference to an object sanitizes its key again. -/
theorem s3Get_key {key : Text} {p : PosixPath} (h : _sanitize_key key = .ok p) {ref : ObjectRef}
    (href : ref.key = some p.str) (store : Store) :
    s3Get store ref =
      match _sanitize_key p.str with
      | .ok p' =>
        match store.objects.lookup p'.str with
        | some body => .ok body
        | none => .error (.osError "NoSuchKey")
      | .error e => .error e := by
  obtain ⟨c, x, hcons⟩ := List.exists_cons_of_ne_nil (str_ne_nil h)
  rw [s3Get, href, hcons]
  dsimp only
  rw [← hcons]
  cases hagain : _sanitize_key p.str with
  | error e => rfl
  | ok p' => rfl

/-! ### Storing something first -/

omit u in
theorem mkdirs_ok {fs : FileSystem} (h : ∀ l c, fs.lookup l ≠ some (.file c))
    (locations : List (List Text)) :
    ∃ made, locations.foldlM mkdir fs = .ok made ∧ ∀ l c, made.lookup l ≠ some (.file c) := by
  induction locations generalizing fs with
  | nil => exact ⟨fs, rfl, h⟩
  | cons location locations ih =>
    have hone : ∃ made, mkdir fs location = .ok made ∧ ∀ l c, made.lookup l ≠ some (.file c) := by
      cases hat : fs.lookup location with
      | none =>
        refine ⟨Keyed.set Prod.fst fs (location, .dir), by rw [mkdir, hat], fun l c ↦ ?_⟩
        rw [lookup_set]
        split
        · rintro ⟨⟩
        · exact h l c
      | some node =>
        cases node with
        | dir => exact ⟨fs, by rw [mkdir, hat], h⟩
        | file content => exact absurd hat (h location content)
    obtain ⟨made, hmade, hnone⟩ := hone
    obtain ⟨all, hall, hnone'⟩ := ih hnone
    exact ⟨all, by rw [List.foldlM_cons, hmade]; exact hall, hnone'⟩

/-- In an empty store an accepted key can be put, and is then the only file. -/
theorem exists_localPut {key : Text} {p : PosixPath} (h : _sanitize_key key = .ok p)
    (root : PosixPath) (cwd : List Text) (raw : Bytes) :
    ∃ ref store', localPut root cwd {} key raw = .ok (ref, store') ∧ ref.key = some p.str ∧
      ∀ l, l ≠ target root cwd p → ∀ c, store'.files.lookup l ≠ some (.file c) := by
  have hempty : ∀ (l : List Text) (c : Bytes), ([] : FileSystem).lookup l ≠ some (.file c) := by
    rintro l c ⟨⟩
  obtain ⟨made, hmade, hnone⟩ := mkdirs_ok hempty
    (PosixPath.resolve cwd root ++ p.parts.dropLast).inits
  -- the file is not one of the directories above it
  have hfree : made.lookup (target root cwd p) = none := by
    rcases makedirs_frame hmade (target root cwd p) with hsame | ⟨hpre, -, -⟩
    · exact hsame
    · have hle := hpre.length_le
      have hpos := List.length_pos_iff.2 (below_of_sanitize h).2.1
      rw [target, List.length_append, List.length_append, List.length_dropLast] at hle
      omega
  have hwrite : write_bytes made (target root cwd p) raw =
      .ok (Keyed.set Prod.fst made (target root cwd p, .file raw)) := by rw [write_bytes, hfree]
  have hput := localPut_eq h root cwd {} raw
  have hmade' : makedirs ({} : Store).files (PosixPath.resolve cwd root ++ p.parts.dropLast) =
      .ok made := hmade
  rw [hmade', Except.bind, hwrite] at hput
  refine ⟨_, _, hput, rfl, fun l hl c ↦ ?_⟩
  show (Keyed.set Prod.fst made (target root cwd p, .file raw)).lookup l ≠ some (.file c)
  rw [lookup_set, if_neg hl]
  exact hnone l c

/-- Paths of accepted keys with the same text are the same. -/
theorem str_injective {key key' : Text} {p p' : PosixPath} (h : _sanitize_key key = .ok p)
    (h' : _sanitize_key key' = .ok p') (heq : p.str = p'.str) : p = p' := by
  obtain ⟨habsolute, hne, hbelow⟩ := below_of_sanitize h
  obtain ⟨habsolute', hne', hbelow'⟩ := below_of_sanitize h'
  obtain ⟨absolute, parts⟩ := p
  obtain ⟨absolute', parts'⟩ := p'
  obtain rfl : absolute = false := habsolute
  obtain rfl : absolute' = false := habsolute'
  dsimp only at hne hne' hbelow hbelow'
  rw [str_relative hne, str_relative hne'] at heq
  rw [← segments_intercalate hne hbelow, ← segments_intercalate hne' hbelow', heq]

/-- An accepted key whose sanitized form is not settled is put, but not got. -/
theorem not_roundTrip {b : Backend} (hb : b ≠ .db) {key : Text} {p : PosixPath}
    (h : _sanitize_key key = .ok p) (hsettled : ¬Settled key) : ¬b.RoundTrip key := by
  have hagain : ∀ p', _sanitize_key p.str = .ok p' → p' ≠ p := by
    rintro p' hp' rfl
    exact hsettled ((resanitize_iff h).1 hp')
  intro hround
  cases b with
  | db => exact hb rfl
  | localDir root cwd =>
    obtain ⟨ref, store', hput, href, hnone⟩ := exists_localPut h root cwd []
    have hget := (hround {} store' [] ref hput [] fun q hq ↦ absurd hq List.not_mem_nil).1
    replace hget : localGet root cwd store' ref = .ok [] := hget
    rw [localGet_key h href] at hget
    cases hp' : _sanitize_key p.str with
    | error e =>
      rw [hp'] at hget
      cases hget
    | ok p' =>
      have hne : target root cwd p' ≠ target root cwd p := by
        intro heq
        refine hagain p' hp' ?_
        have hparts := List.append_cancel_left heq
        obtain ⟨habsolute, -, -⟩ := below_of_sanitize h
        obtain ⟨habsolute', -, -⟩ := below_of_sanitize hp'
        obtain ⟨absolute, parts⟩ := p
        obtain ⟨absolute', parts'⟩ := p'
        exact congrArg₂ PosixPath.mk (habsolute'.trans habsolute.symm) hparts
      rw [hp'] at hget
      dsimp only at hget
      rw [read_bytes] at hget
      split at hget
      · next hfile => exact hnone _ hne _ hfile
      · cases hget
      · cases hget
  | s3 bucket =>
    have hput : s3Put bucket {} key [] = .ok (⟨"s3".toList, some p.str,
        some ("s3://".toList ++ bucket ++ ['/'] ++ p.str), none, none⟩,
          { files := [], objects := [(p.str, [])] }) := by
      rw [s3Put, h]
      rfl
    have hget := (hround {} _ [] _ hput [] fun q hq ↦ absurd hq List.not_mem_nil).1
    replace hget : s3Get { files := [], objects := [(p.str, [])] } _ = .ok [] := hget
    rw [s3Get_key h rfl] at hget
    cases hp' : _sanitize_key p.str with
    | error e =>
      rw [hp'] at hget
      cases hget
    | ok p' =>
      have hne : p'.str ≠ p.str := fun heq ↦ hagain p' hp' (str_injective hp' h heq)
      rw [hp'] at hget
      dsimp only at hget
      rw [List.lookup_cons, beq_false_of_ne hne] at hget
      cases hget

/-- What is put is read back for inline references, and otherwise exactly for the keys whose sanitized form
is settled. -/
theorem roundTrip_iff (b : Backend) (key : Text) :
    b.RoundTrip key ↔ b = .db ∨ ∀ p, _sanitize_key key = .ok p → Settled key := by
  constructor
  · intro hround
    by_contra hnot
    simp only [not_or, not_forall] at hnot
    obtain ⟨hb, p, hp, hsettled⟩ := hnot
    exact not_roundTrip hb hp hsettled hround
  · intro hkey store store' data ref hput later hlater
    suffices hget : b.get (b.putAll store' later) ref = .ok data from
      ⟨hget, ref, reloaded_eq ref, hget⟩
    cases b with
    | db =>
      obtain ⟨rfl, rfl⟩ := Prod.mk.inj (Except.ok.inj hput)
      exact dbGet_dbPut data
    | localDir root cwd =>
      obtain ⟨p, hp, href, -, hfile, -⟩ := localPut_ok hput
      have hsettled : Settled key := (hkey.resolve_left (by rintro ⟨⟩)) p hp
      have hkept := Backend.putAll_induct (.localDir root cwd)
        (fun s ↦ s.files.lookup (target root cwd p) = some (.file data)) key
        (fun s key' raw stored hs hother hstored ↦ file_of_put hs hp hother hstored) hfile hlater
      show localGet root cwd _ ref = _
      rw [localGet_key hp href, (resanitize_iff hp).2 hsettled]
      dsimp only
      rw [read_bytes, hkept]
    | s3 bucket =>
      obtain ⟨p, hp, href, -, hobjects⟩ := s3Put_ok hput
      have hsettled : Settled key := (hkey.resolve_left (by rintro ⟨⟩)) p hp
      have hkept := Backend.putAll_induct (.s3 bucket) (fun s ↦ s.objects.lookup p.str = some data) key
        (fun s key' raw stored hs hother hstored ↦ object_of_put hs hp hother hstored)
        ((hobjects p.str).trans (if_pos rfl)) hlater
      show s3Get _ ref = _
      rw [s3Get_key hp href, (resanitize_iff hp).2 hsettled]
      dsimp only
      rw [hkept]

end

/-- A file whose name ends with a blank, named with a dot behind it, is stored, and looked for under another
name. -/
theorem blank_not_read_back :
    ¬@Backend.RoundTrip asciiTables (.localDir ⟨true, ["srv".toList]⟩ []) "a /.".toList := by
  have hok : @_sanitize_key asciiTables "a /.".toList = .ok ⟨false, ["a ".toList]⟩ := by rfl
  refine @not_roundTrip asciiTables _ (by rintro ⟨⟩) _ _ hok fun hsettled ↦ ?_
  exact absurd (hsettled.2 "a ".toList rfl ' ' rfl) (by decide)

end Storage

end Sentrik
