import Mathlib.Data.List.Infix
import Sentrik.Services.Storage

/-!
# What storing touches

An accepted key leads to plain segments below the root, so whatever the key a backend writes at one
location beneath it, and makes the directories on the way. The key of an exported report has the id of the
assessment in its second segment, so the report is stored under the prefix of that assessment, whatever the
format.
-/

namespace Sentrik

namespace Storage

/-! ### Dictionaries -/

/-- Writing a key changes what is read at that key, and nothing else. -/
theorem lookup_set {κ ν : Type*} [DecidableEq κ] [BEq κ] [LawfulBEq κ] (l : List (κ × ν)) (k : κ) (v : ν) (k' : κ) :
    (Keyed.set Prod.fst l (k, v)).lookup k' = if k' = k then some v else l.lookup k' := by
  induction l with
  | nil =>
    rw [Keyed.set, List.lookup_cons, List.lookup_nil]
    by_cases h : k' = k
    · rw [if_pos h, h, beq_self_eq_true]
    · rw [if_neg h, beq_false_of_ne h]
  | cons e l ih =>
    obtain ⟨k₀, v₀⟩ := e
    rw [Keyed.set]
    by_cases hk : k₀ = k
    · subst hk
      rw [if_pos rfl, List.lookup_cons, List.lookup_cons]
      by_cases h : k' = k₀
      · rw [if_pos h, h, beq_self_eq_true]
      · rw [if_neg h, beq_false_of_ne h]
    · rw [if_neg hk, List.lookup_cons, ih, List.lookup_cons]
      by_cases h : k' = k₀
      · subst h
        simp only [beq_self_eq_true, if_neg hk]
      · rw [beq_false_of_ne h]

/-! ### Accepted keys -/

/-- A segment that stays beneath what it is appended to. -/
def Below (s : Text) : Prop :=
  s ≠ [] ∧ s ≠ ".".toList ∧ s ≠ "..".toList ∧ '/' ∉ s ∧ '\\' ∉ s

theorem Below.plain {s : Text} (h : Below s) : PosixPath.Plain s := ⟨h.1, h.2.1, h.2.2.1, h.2.2.2.1⟩

section

variable [u : UnicodeTables]

theorem backslash_notMem_normalize (key : Text) : '\\' ∉ normalize key := by
  intro hmem
  obtain ⟨c, -, hc⟩ := List.mem_map.1 ((Text.strip_infix _).subset hmem)
  by_cases hback : c = '\\'
  · rw [if_pos hback] at hc
    exact absurd hc (by decide)
  · rw [if_neg hback] at hc
    exact hback hc

omit u in
theorem mem_segments {t s : Text} (h : s ∈ PosixPath.segments t) :
    s ≠ [] ∧ s ≠ ".".toList ∧ '/' ∉ s ∧ s ⊆ t := by
  obtain ⟨hsplit, hkeep⟩ := List.mem_filter.1 h
  have hne : s ≠ [] ∧ s ≠ ['.'] := by simpa using hkeep
  exact ⟨hne.1, hne.2, Text.not_mem_of_mem_split hsplit, Text.subset_of_mem_split hsplit⟩

/-- When a key is accepted, and what it is then. -/
theorem sanitize_ok_iff {key : Text} {p : PosixPath} :
    _sanitize_key key = .ok p ↔
      (normalize key ≠ [] ∧ ¬Text.startswith (normalize key) ['/'] = true ∧
        (normalize key)[1]? ≠ some ':' ∧ PosixPath.segments (normalize key) ≠ [] ∧
          "..".toList ∉ PosixPath.segments (normalize key)) ∧
        p = ⟨false, PosixPath.segments (normalize key)⟩ := by
  have hany : (PosixPath.segments (normalize key)).any (· = "..".toList) = true ↔
      "..".toList ∈ PosixPath.segments (normalize key) := by
    rw [List.any_eq_true]
    constructor
    · rintro ⟨s, hs, heq⟩
      rwa [← of_decide_eq_true heq]
    · intro h
      exact ⟨_, h, decide_eq_true rfl⟩
  have hofArgs : "..".toList ∉ PosixPath.segments (normalize key) →
      PosixPath.ofArgs (PosixPath.segments (normalize key)) =
        ⟨false, PosixPath.segments (normalize key)⟩ := by
    intro hdots
    refine PosixPath.joinpath_plain ⟨false, []⟩ fun s hs ↦ ?_
    obtain ⟨hne, hdot, hslash, -⟩ := mem_segments hs
    exact ⟨hne, hdot, fun h ↦ hdots (h ▸ hs), hslash⟩
  unfold _sanitize_key
  by_cases hkey : key = []
  · subst hkey
    rw [if_pos rfl]
    exact ⟨by rintro ⟨⟩, fun h ↦ absurd rfl h.1.1⟩
  rw [if_neg hkey]
  by_cases hblank : normalize key = []
  · rw [if_pos hblank]
    exact ⟨by rintro ⟨⟩, fun h ↦ absurd hblank h.1.1⟩
  rw [if_neg hblank]
  by_cases hslash : Text.startswith (normalize key) ['/'] = true
  · rw [if_pos hslash]
    exact ⟨by rintro ⟨⟩, fun h ↦ absurd hslash h.1.2.1⟩
  rw [if_neg hslash]
  by_cases hdrive : (normalize key)[1]? = some ':'
  · rw [if_pos hdrive]
    exact ⟨by rintro ⟨⟩, fun h ↦ absurd hdrive h.1.2.2.1⟩
  rw [if_neg hdrive]
  by_cases hnone : PosixPath.segments (normalize key) = []
  · rw [if_pos hnone]
    exact ⟨by rintro ⟨⟩, fun h ↦ absurd hnone h.1.2.2.2.1⟩
  rw [if_neg hnone]
  by_cases hdots : "..".toList ∈ PosixPath.segments (normalize key)
  · rw [if_pos (hany.2 hdots)]
    exact ⟨by rintro ⟨⟩, fun h ↦ absurd hdots h.1.2.2.2.2⟩
  rw [if_neg (fun h ↦ hdots (hany.1 h)), hofArgs hdots]
  constructor
  · intro h
    exact ⟨⟨hblank, hslash, hdrive, hnone, hdots⟩, (Except.ok.inj h).symm⟩
  · rintro ⟨-, rfl⟩
    rfl

/-- An accepted key is a relative path of segments that stay beneath. -/
theorem below_of_sanitize {key : Text} {p : PosixPath} (h : _sanitize_key key = .ok p) :
    p.absolute = false ∧ p.parts ≠ [] ∧ ∀ s ∈ p.parts, Below s := by
  obtain ⟨⟨-, -, -, hne, hdots⟩, rfl⟩ := sanitize_ok_iff.1 h
  refine ⟨rfl, hne, fun s hs ↦ ?_⟩
  obtain ⟨hempty, hdot, hslash, hsubset⟩ := mem_segments hs
  exact ⟨hempty, hdot, fun heq ↦ hdots (heq ▸ hs), hslash,
    fun hback ↦ backslash_notMem_normalize key (hsubset hback)⟩

/-- The path of an accepted key, and where it is. -/
theorem resolve_of_sanitize {key : Text} {p : PosixPath} (h : _sanitize_key key = .ok p)
    (root : PosixPath) (cwd : List Text) :
    _resolve root key = .ok ⟨root.absolute, root.parts ++ p.parts⟩ ∧
      PosixPath.resolve cwd ⟨root.absolute, root.parts ++ p.parts⟩ =
        PosixPath.resolve cwd root ++ p.parts := by
  obtain ⟨-, -, hbelow⟩ := below_of_sanitize h
  refine ⟨?_, PosixPath.resolve_append cwd root fun s hs ↦ (hbelow s hs).plain⟩
  rw [_resolve, h]
  show Except.ok (root.joinpath p.parts) = _
  rw [PosixPath.joinpath_plain root fun s hs ↦ (hbelow s hs).plain]

/-! ### What is written -/

omit u in
theorem mkdirs_frame {locations : List (List Text)} {fs fs' : FileSystem}
    (h : locations.foldlM mkdir fs = .ok fs') (l : List Text) :
    fs'.lookup l = fs.lookup l ∨
      l ∈ locations ∧ fs.lookup l = none ∧ fs'.lookup l = some .dir := by
  induction locations generalizing fs with
  | nil =>
    cases h
    exact .inl rfl
  | cons location locations ih =>
    rw [List.foldlM_cons] at h
    cases hmade : mkdir fs location with
    | error e =>
      rw [hmade] at h
      cases h
    | ok made =>
      rw [hmade] at h
      have hone : made.lookup l = fs.lookup l ∨
          l = location ∧ fs.lookup l = none ∧ made.lookup l = some .dir := by
        rw [mkdir] at hmade
        cases hat : fs.lookup location with
        | none =>
          rw [hat] at hmade
          cases hmade
          rw [lookup_set]
          by_cases hl : l = location
          · exact .inr ⟨hl, hl ▸ hat, if_pos hl⟩
          · exact .inl (if_neg hl)
        | some node =>
          rw [hat] at hmade
          cases node with
          | dir =>
            cases hmade
            exact .inl rfl
          | file content => cases hmade
      rcases ih h with hsame | ⟨hmem, hnone, hdir⟩
      · rcases hone with hone | ⟨hl, hnone, hdir⟩
        · exact .inl (hsame.trans hone)
        · exact .inr ⟨hl ▸ List.mem_cons_self, hnone, hsame.trans hdir⟩
      · rcases hone with hone | ⟨-, -, hdir'⟩
        · exact .inr ⟨List.mem_cons_of_mem location hmem, hone.symm.trans hnone, hdir⟩
        · rw [hnone] at hdir'
          cases hdir'

omit u in
/-- Making directories changes nothing but what was not there on the way. -/
theorem makedirs_frame {fs fs' : FileSystem} {location : List Text}
    (h : makedirs fs location = .ok fs') (l : List Text) :
    fs'.lookup l = fs.lookup l ∨
      l <+: location ∧ fs.lookup l = none ∧ fs'.lookup l = some .dir := by
  rcases mkdirs_frame h l with hsame | ⟨hmem, hnew⟩
  · exact .inl hsame
  · exact .inr ⟨(List.mem_inits _ _).1 hmem, hnew⟩

/-- Where a backend below a root writes an accepted key. -/
def target (root : PosixPath) (cwd : List Text) (p : PosixPath) : List Text :=
  PosixPath.resolve cwd root ++ p.parts

/-- Storing in files under an accepted key: the directories above the file, and the file. -/
theorem localPut_eq {key : Text} {p : PosixPath} (h : _sanitize_key key = .ok p) (root : PosixPath)
    (cwd : List Text) (store : Store) (raw : Bytes) :
    localPut root cwd store key raw =
      (makedirs store.files (PosixPath.resolve cwd root ++ p.parts.dropLast)).bind fun made ↦
        (write_bytes made (target root cwd p) raw).bind fun files ↦
          .ok (⟨"local".toList, some p.str, some (as_uri (target root cwd p)), none, none⟩,
            { store with files }) := by
  obtain ⟨hpath, hwhere⟩ := resolve_of_sanitize h root cwd
  obtain ⟨-, hne, hbelow⟩ := below_of_sanitize h
  have hparent : PosixPath.resolve cwd (PosixPath.parent ⟨root.absolute, root.parts ++ p.parts⟩) =
      PosixPath.resolve cwd root ++ p.parts.dropLast := by
    rw [PosixPath.parent, List.dropLast_append_of_ne_nil hne]
    exact PosixPath.resolve_append cwd root fun s hs ↦ (hbelow s (List.dropLast_subset _ hs)).plain
  rw [target, ← hwhere, ← hparent, localPut, hpath, h]
  rfl

omit u in
/-- What writing a file does, when it is done. -/
theorem write_bytes_ok {fs files : FileSystem} {location : List Text} {raw : Bytes}
    (h : write_bytes fs location raw = .ok files) :
    files = Keyed.set Prod.fst fs (location, .file raw) := by
  rw [write_bytes] at h
  split at h
  · cases h
  · exact (Except.ok.inj h).symm

/-- Storing in files: an accepted key, one file at its location, and directories on the way. -/
theorem localPut_ok {root : PosixPath} {cwd : List Text} {store store' : Store} {key : Text}
    {raw : Bytes} {ref : ObjectRef} (h : localPut root cwd store key raw = .ok (ref, store')) :
    ∃ p, _sanitize_key key = .ok p ∧ ref.key = some p.str ∧ store'.objects = store.objects ∧
      store'.files.lookup (target root cwd p) = some (.file raw) ∧
      ∀ l, l ≠ target root cwd p → store'.files.lookup l = store.files.lookup l ∨
        l <+: target root cwd p ∧ store.files.lookup l = none ∧
          store'.files.lookup l = some .dir := by
  cases hkey : _sanitize_key key with
  | error e =>
    rw [localPut, _resolve, hkey] at h
    cases h
  | ok p =>
    have hup : PosixPath.resolve cwd root ++ p.parts.dropLast <+: target root cwd p :=
      (List.prefix_append_right_inj _).2 (List.dropLast_prefix _)
    rw [localPut_eq hkey] at h
    cases hmade : makedirs store.files (PosixPath.resolve cwd root ++ p.parts.dropLast) with
    | error e =>
      rw [hmade] at h
      cases h
    | ok made =>
      rw [hmade, Except.bind] at h
      cases hfiles : write_bytes made (target root cwd p) raw with
      | error e =>
        rw [hfiles] at h
        cases h
      | ok files =>
        rw [hfiles] at h
        obtain ⟨rfl, rfl⟩ := Prod.mk.inj (Except.ok.inj h)
        obtain rfl := write_bytes_ok hfiles
        refine ⟨p, rfl, rfl, rfl, ?_, fun l hl ↦ ?_⟩
        · rw [lookup_set, if_pos rfl]
        · rw [lookup_set, if_neg hl]
          rcases makedirs_frame hmade l with hsame | ⟨hpre, hdir⟩
          · exact .inl hsame
          · exact .inr ⟨hpre.trans hup, hdir⟩

/-- Storing in a bucket: an accepted key, and one object under it. -/
theorem s3Put_ok {bucket : Text} {store store' : Store} {key : Text} {raw : Bytes} {ref : ObjectRef}
    (h : s3Put bucket store key raw = .ok (ref, store')) :
    ∃ p, _sanitize_key key = .ok p ∧ ref.key = some p.str ∧ store'.files = store.files ∧
      ∀ k, store'.objects.lookup k = if k = p.str then some raw else store.objects.lookup k := by
  cases hkey : _sanitize_key key with
  | error e =>
    rw [s3Put, hkey] at h
    cases h
  | ok p =>
    rw [s3Put, hkey] at h
    obtain ⟨rfl, rfl⟩ := Prod.mk.inj (Except.ok.inj h)
    exact ⟨p, rfl, rfl, rfl, fun k ↦ lookup_set _ _ _ _⟩

/-! ### Exported reports -/

/-- A hexadecimal digit. -/
def isHexDigit (c : Char) : Bool := c.isDigit || ('a' ≤ c && c ≤ 'f') || ('A' ≤ c && c ≤ 'F')

/-- The id of a row. -/
def HexId (id : Text) : Prop := id ≠ [] ∧ ∀ c ∈ id, isHexDigit c = true

omit u in
theorem isHexDigit_ne {c d : Char} (hc : isHexDigit c = true) (hd : isHexDigit d = false) : c ≠ d := by
  rintro rfl
  rw [hc] at hd
  cases hd

omit u in
/-- The id of a row is a segment of its own. -/
theorem HexId.below {id : Text} (h : HexId id) : Below id := by
  have hdot : ∀ l : Text, id ≠ '.' :: l := by
    rintro l rfl
    exact isHexDigit_ne (h.2 '.' List.mem_cons_self) (d := '.') (by decide) rfl
  refine ⟨h.1, hdot [], hdot ['.'], fun hmem ↦ ?_, fun hmem ↦ ?_⟩
  · exact isHexDigit_ne (h.2 _ hmem) (d := '/') (by decide) rfl
  · exact isHexDigit_ne (h.2 _ hmem) (d := '\\') (by decide) rfl

omit u in
theorem segments_append_slash {s : Text} (h : '/' ∉ s) (t : Text) :
    Text.split '/' (s ++ '/' :: t) = s :: Text.split '/' t := by
  have hsplit := Text.split_append h (Text.split_cons_self '/' t)
  rwa [List.append_nil] at hsplit

omit u in
theorem slashes_append {a : Text} (h : '\\' ∉ a) (t : Text) : slashes (a ++ t) = a ++ slashes t := by
  have hkeep : slashes a = a := by
    refine (List.map_congr_left fun c hc ↦ ?_).trans (List.map_id a)
    have hne : c ≠ '\\' := by
      rintro rfl
      exact h hc
    exact if_neg hne
  have happend : slashes (a ++ t) = slashes a ++ slashes t := List.map_append
  rw [happend, hkeep]

omit u in
/-- Only the format may have separators of the other kind. -/
theorem slashes_reportKey {id : Text} (h : HexId id) (fmt : Text) :
    slashes (reportKey id fmt) = "reports/".toList ++ id ++ "/report.".toList ++ slashes fmt := by
  refine slashes_append (fun hmem ↦ ?_) fmt
  rcases List.mem_append.1 hmem with hmem | hmem
  · rcases List.mem_append.1 hmem with hmem | hmem
    · exact absurd hmem (by decide)
    · exact h.below.2.2.2.2 hmem
  · exact absurd hmem (by decide)

/-- The segments of the key of a report: the prefix of the assessment, and at least one more. -/
theorem segments_reportKey [LawfulAsciiSpaces] {id : Text} (h : HexId id) (fmt : Text) :
    ∃ rest, rest ≠ [] ∧
      PosixPath.segments (normalize (reportKey id fmt)) = "reports".toList :: id :: rest := by
  -- nothing is stripped off the front, nor off the end up to the dot
  have hr : u.isSpace 'r' = false := LawfulAsciiSpaces.isSpace_ascii (by decide)
  have hdot : u.isSpace '.' = false := LawfulAsciiSpaces.isSpace_ascii (by decide)
  have hhead : ("reports/".toList ++ id ++ "/report.".toList ++ slashes fmt).head? = some 'r' := by
    have hfront : "reports/".toList = 'r' :: "eports/".toList := by decide
    rw [hfront]
    simp only [List.cons_append, List.head?_cons]
  have hlast : ("reports/".toList ++ id ++ "/report.".toList).getLast? = some '.' := by
    rw [List.getLast?_append]
    rfl
  have hnormal : normalize (reportKey id fmt) =
      "reports/".toList ++ id ++ "/report.".toList ++ Text.rstripSpace (slashes fmt) := by
    rw [normalize, slashes_reportKey h, Text.strip_of_head hhead hr,
      Text.rstripSpace_append hlast hdot]
  -- the last of the fixed segments goes on with the format
  obtain ⟨part, more, hsplit⟩ := List.exists_cons_of_ne_nil (Text.split_ne_nil '/'
    (Text.rstripSpace (slashes fmt)))
  have hname := Text.split_append (s := "report.".toList) (by decide) hsplit
  have hparts : Text.split '/' (normalize (reportKey id fmt)) =
      "reports".toList :: id :: ("report.".toList ++ part) :: more := by
    rw [hnormal, ← hname, ← segments_append_slash h.below.2.2.2.1,
      ← segments_append_slash (s := "reports".toList) (by decide)]
    simp only [List.append_assoc]
    rfl
  refine ⟨("report.".toList ++ part) :: more.filter fun s ↦ s ≠ [] ∧ s ≠ ['.'],
    List.cons_ne_nil _ _, ?_⟩
  have hid : id ≠ [] ∧ id ≠ ['.'] := ⟨h.below.1, h.below.2.1⟩
  rw [PosixPath.segments, hparts, List.filter_cons_of_pos (by decide),
    List.filter_cons_of_pos (by simpa using hid), List.filter_cons_of_pos]
  refine decide_eq_true ⟨List.cons_ne_nil _ _, fun heq ↦ ?_⟩
  exact absurd (List.cons.inj heq).1 (by decide)

/-- What was stored is under a prefix: nothing outside of the reference, or one file below the location of
the prefix, with the directories on the way to it, or one object whose key begins with the prefix. -/
def Backend.StoredUnder (b : Backend) (front : List Text) (store store' : Store) (ref : ObjectRef) :
    Prop :=
  match b with
  | .db => ref.key = none ∧ store' = store
  | .localDir root cwd => ∃ rest : List Text, rest ≠ [] ∧ (∀ s ∈ rest, Below s) ∧
      ref.key = some (List.intercalate ['/'] (front ++ rest)) ∧ store'.objects = store.objects ∧
      ∀ l, l ≠ PosixPath.resolve cwd root ++ (front ++ rest) →
        store'.files.lookup l = store.files.lookup l ∨
          l <+: PosixPath.resolve cwd root ++ (front ++ rest) ∧ store.files.lookup l = none ∧
            store'.files.lookup l = some .dir
  | .s3 _ => ∃ rest : List Text, rest ≠ [] ∧ (∀ s ∈ rest, Below s) ∧
      ref.key = some (List.intercalate ['/'] (front ++ rest)) ∧ store'.files = store.files ∧
      ∀ k, k ≠ List.intercalate ['/'] (front ++ rest) →
        store'.objects.lookup k = store.objects.lookup k

omit u in
theorem str_relative {parts : List Text} (h : parts ≠ []) :
    PosixPath.str ⟨false, parts⟩ = List.intercalate ['/'] parts := by
  rw [PosixPath.str, if_neg fun hnil ↦ h hnil.1]
  rfl

/-- Storing under an accepted key whose path begins with a prefix. -/
theorem storedUnder_of_put {b : Backend} {store store' : Store} {key : Text} {raw : Bytes}
    {ref : ObjectRef} (h : b.put store key raw = .ok (ref, store')) {front rest : List Text}
    (hrest : rest ≠ []) (hkey : ∀ p, _sanitize_key key = .ok p → p.parts = front ++ rest) :
    b.StoredUnder front store store' ref := by
  have hparts : ∀ p, _sanitize_key key = .ok p →
      (∀ s ∈ rest, Below s) ∧ p.str = List.intercalate ['/'] (front ++ rest) := by
    intro p hp
    obtain ⟨habsolute, hne, hbelow⟩ := below_of_sanitize hp
    obtain ⟨absolute, parts⟩ := p
    obtain rfl : absolute = false := habsolute
    obtain rfl : parts = front ++ rest := hkey _ hp
    exact ⟨fun s hs ↦ hbelow s (List.mem_append_right _ hs), str_relative hne⟩
  cases b with
  | db =>
    obtain ⟨rfl, rfl⟩ := Prod.mk.inj (Except.ok.inj h)
    refine ⟨?_, rfl⟩
    rw [dbPut]
    split <;> rfl
  | localDir root cwd =>
    obtain ⟨p, hp, hrefkey, hobjects, -, hframe⟩ := localPut_ok h
    obtain ⟨hbelow, hstr⟩ := hparts p hp
    rw [target, hkey p hp] at hframe
    exact ⟨rest, hrest, hbelow, hrefkey.trans (congrArg some hstr), hobjects, hframe⟩
  | s3 bucket =>
    obtain ⟨p, hp, hrefkey, hfiles, hobjects⟩ := s3Put_ok h
    obtain ⟨hbelow, hstr⟩ := hparts p hp
    refine ⟨rest, hrest, hbelow, hrefkey.trans (congrArg some hstr), hfiles, fun k hk ↦ ?_⟩
    rw [hobjects, if_neg (hstr ▸ hk)]

end

section

attribute [local instance] asciiTables

end

end Storage

end Sentrik
