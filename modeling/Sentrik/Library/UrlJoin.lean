import Sentrik.Library.Url

/-!
# Joining URLs

A reference is resolved against a base URL the way a standard library's generic joiner does it: both are split
into six parts, a reference with a scheme of its own (or one that knows no relative references) stands for
itself, and a relative path replaces the last segment of the path of the base, its dot segments removed.

Joining only fails where splitting one of the two fails (`urljoin_returns_iff`).
-/

namespace Url

/-! ### Schemes -/

/-- The schemes that know relative references. -/
def uses_relative : List Text := [
  [], "ftp".toList, "http".toList, "gopher".toList, "nntp".toList, "imap".toList, "wais".toList,
  "file".toList, "https".toList, "shttp".toList, "mms".toList, "prospero".toList, "rtsp".toList,
  "rtsps".toList, "rtspu".toList, "sftp".toList, "svn".toList, "svn+ssh".toList, "ws".toList,
  "wss".toList]

/-- The schemes with a network location. -/
def uses_netloc : List Text := [
  [], "ftp".toList, "http".toList, "gopher".toList, "nntp".toList, "telnet".toList, "imap".toList,
  "wais".toList, "file".toList, "mms".toList, "https".toList, "shttp".toList, "snews".toList,
  "prospero".toList, "rtsp".toList, "rtsps".toList, "rtspu".toList, "rsync".toList, "svn".toList,
  "svn+ssh".toList, "sftp".toList, "nfs".toList, "git".toList, "git+ssh".toList, "ws".toList,
  "wss".toList]

/-- The schemes with parameters of the last segment. -/
def uses_params : List Text := [
  [], "ftp".toList, "hdl".toList, "prospero".toList, "http".toList, "imap".toList, "https".toList,
  "shttp".toList, "rtsp".toList, "rtsps".toList, "rtspu".toList, "sip".toList, "sips".toList,
  "mms".toList, "sftp".toList, "tel".toList]

/-! ### Six parts -/

/-- The six parts of a URL. -/
structure ParseResult where
  scheme : Text
  netloc : Text
  path : Text
  params : Text
  query : Text
  fragment : Text
  deriving DecidableEq, Repr

/-- The path, and the parameters of its last segment. -/
def splitparams (path : Text) : Text × Text :=
  match Text.rpartition '/' path with
  | (dir, last) =>
    match Text.partition ';' last with
    | (_, none) => (path, [])
    | (segment, some params) => ((dir.map (· ++ ['/'])).getD [] ++ segment, params)

variable [UnicodeTables]

/-- Split a URL into six parts; the given scheme is that of a URL without one. -/
def urlparse (url scheme : Text) : Except String ParseResult := do
  let parts ← urlsplit url
  let scheme := if parts.scheme = [] then scheme else parts.scheme
  let (path, params) :=
    if uses_params.contains scheme ∧ parts.path.contains ';' then splitparams parts.path
    else (parts.path, [])
  return { scheme, netloc := parts.netloc, path, params, query := parts.query, fragment := parts.fragment }

omit [UnicodeTables] in
/-- Put the parts together again. -/
def urlunparse (p : ParseResult) : Text :=
  let path := if p.params = [] then p.path else p.path ++ ';' :: p.params
  let url :=
    if p.netloc ≠ [] ∨ (p.scheme ≠ [] ∧ uses_netloc.contains p.scheme) ∨ path.take 2 = ['/', '/'] then
      '/' :: '/' :: p.netloc ++ (if path ≠ [] ∧ path.head? ≠ some '/' then '/' :: path else path)
    else path
  let url := if p.scheme = [] then url else p.scheme ++ ':' :: url
  let url := if p.query = [] then url else url ++ '?' :: p.query
  if p.fragment = [] then url else url ++ '#' :: p.fragment

/-! ### Paths -/

omit [UnicodeTables] in
/-- The segments with the empty ones between the first and the last taken out. -/
def withoutEmpty : List Text → List Text
  | [] => []
  | first :: rest => first :: (rest.dropLast.filter (· ≠ []) ++ rest.getLast?.toList)

omit [UnicodeTables] in
/-- The segments of a relative path behind those of the base, without the last one of the base. -/
def joinSegments (bpath path : Text) : List Text :=
  let base_parts := Text.split '/' bpath
  let base_parts := if base_parts.getLast? = some [] then base_parts else base_parts.dropLast
  if path.head? = some '/' then Text.split '/' path
  else withoutEmpty (base_parts ++ Text.split '/' path)

omit [UnicodeTables] in
/-- Resolve the dot segments. -/
def resolveSegments (segments : List Text) : List Text :=
  let resolved := segments.foldl (fun out seg ↦
    if seg = ['.', '.'] then out.dropLast else if seg = ['.'] then out else out ++ [seg]) []
  if segments.getLast? = some ['.'] ∨ segments.getLast? = some ['.', '.'] then resolved ++ [[]]
  else resolved

/-! ### Joining -/

omit [UnicodeTables] in
/-- The reference, read with the scheme of the base, resolved against the base. -/
def joinParsed (b r : ParseResult) (ref : Text) : Text :=
  if r.scheme ≠ b.scheme ∨ ¬uses_relative.contains r.scheme then ref
  else if uses_netloc.contains r.scheme ∧ r.netloc ≠ [] then urlunparse r
  else
    let netloc := if uses_netloc.contains r.scheme then b.netloc else r.netloc
    if r.path = [] ∧ r.params = [] then
      urlunparse { r with
        netloc
        path := b.path
        params := b.params
        query := if r.query = [] then b.query else r.query }
    else
      let path := List.intercalate ['/'] (resolveSegments (joinSegments b.path r.path))
      urlunparse { r with netloc, path := if path = [] then ['/'] else path }

/-- Join a base URL and a reference. -/
def urljoin (base url : Text) : Except String Text :=
  if base = [] then .ok url
  else if url = [] then .ok base
  else do
    let b ← urlparse base []
    let r ← urlparse url b.scheme
    return joinParsed b r url

/-! ### When joining fails -/

theorem urlparse_returns_iff (url scheme : Text) :
    (∃ p, urlparse url scheme = .ok p) ↔ ∃ parts, urlsplit url = .ok parts := by
  rw [urlparse]
  cases urlsplit url with
  | error exc => exact iff_of_false (fun ⟨_, h⟩ ↦ nomatch h) fun ⟨_, h⟩ ↦ nomatch h
  | ok parts => exact iff_of_true ⟨_, rfl⟩ ⟨parts, rfl⟩

/-- **Joining** fails where one of the two does not split, unless the other one is empty. -/
theorem urljoin_returns_iff {base url : Text} :
    (∃ t, urljoin base url = .ok t) ↔ base = [] ∨ url = [] ∨
      (∃ parts, urlsplit base = .ok parts) ∧ ∃ parts, urlsplit url = .ok parts := by
  rw [urljoin]
  by_cases hbase : base = []
  · rw [if_pos hbase]
    exact iff_of_true ⟨url, rfl⟩ (.inl hbase)
  by_cases hurl : url = []
  · rw [if_neg hbase, if_pos hurl]
    exact iff_of_true ⟨base, rfl⟩ (.inr (.inl hurl))
  rw [if_neg hbase, if_neg hurl, or_iff_right hbase, or_iff_right hurl,
    ← urlparse_returns_iff base []]
  cases hb : urlparse base [] with
  | error exc => exact iff_of_false (fun ⟨_, h⟩ ↦ nomatch h) fun h ↦ nomatch h.1
  | ok b =>
    rw [and_iff_right ⟨b, rfl⟩, ← urlparse_returns_iff url b.scheme]
    cases hr : urlparse url b.scheme with
    | error exc =>
      refine iff_of_false ?_ fun ⟨_, h⟩ ↦ nomatch h
      rintro ⟨t, h⟩
      simp only [bind, Except.bind, hr] at h
      cases h
    | ok r =>
      refine iff_of_true ⟨joinParsed b r url, ?_⟩ ⟨r, rfl⟩
      simp only [bind, Except.bind, hr]
      rfl

end Url
