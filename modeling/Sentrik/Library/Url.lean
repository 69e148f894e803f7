import Sentrik.Library.IpAddress

/-!
# Splitting URLs

A URL text is cut into scheme, network location, path, query and fragment, and the network location
into host and port, the way a standard library's generic splitter does it: leading control
characters and spaces go, tabs and newlines go everywhere, a bracketed host has to be an address of
the second family, a network location whose compatibility normalization produces a delimiter is
refused. The errors carry the texts of that library.

`SplitResult` keeps the **texts**; `hostname` and `port` are computed from the network location on
demand, and only reading the port can fail.

The last section says what the splitter guarantees about the path: with a network location present,
it is empty or starts with a slash (`urlsplit_path`).
-/

namespace Url

/-- The five parts of a split URL. -/
structure SplitResult where
  scheme : Text
  netloc : Text
  path : Text
  query : Text
  fragment : Text
  deriving DecidableEq, Repr

/-! ### Small tests -/

/-- A control character or a space. -/
def isC0ControlOrSpace (c : Char) : Bool := c.toNat ≤ 32

/-- A character that may stand in a scheme. -/
def isSchemeChar (c : Char) : Bool :=
  ('a' ≤ c && c ≤ 'z') || ('A' ≤ c && c ≤ 'Z') || Text.isDigit c || c == '+' || c == '-' || c == '.'

def isAsciiAlpha (c : Char) : Bool := ('a' ≤ c && c ≤ 'z') || ('A' ≤ c && c ≤ 'Z')

def isAscii (c : Char) : Bool := c.toNat < 128

def isHexDigit (c : Char) : Bool := (IpAddress.hexValue c).isSome

/-! ### Brackets -/

/-- What may stand between brackets: an address of the second family, or a versioned future one. -/
def checkBracketedHost [UnicodeTables] (hostname : Text) : Except String Unit :=
  match hostname with
  | 'v' :: t =>
    match Text.partition '.' t with
    | (version, some rest) =>
      if version ≠ [] ∧ version.all isHexDigit ∧ rest ≠ [] ∧ ¬rest.contains '\n' then .ok ()
      else .error "IPvFuture address is invalid"
    | _ => .error "IPvFuture address is invalid"
  | _ =>
    match IpAddress.ip_address hostname with
    | none =>
      .error (Text.repr hostname ++ " does not appear to be an IPv4 or IPv6 address")
    | some (.v4 _) => .error "An IPv4 address cannot be in brackets"
    | some (.v6 _ _) => .ok ()

/-- A bracketed network location: nothing before the bracket, only a port after it. -/
def checkBracketedNetloc [UnicodeTables] (netloc : Text) : Except String Unit :=
  match Text.partition '[' (Text.rpartition '@' netloc).2 with
  | (before, some bracketed) =>
    if before ≠ [] then .error "Invalid IPv6 URL"
    else
      match Text.partition ']' bracketed with
      | (hostname, some (c :: _)) =>
        if c ≠ ':' then .error "Invalid IPv6 URL" else checkBracketedHost hostname
      | (hostname, _) => checkBracketedHost hostname
  | (hostnameAndPort, none) => checkBracketedHost (Text.partition ':' hostnameAndPort).1

/-- A network location that turns into something with a delimiter under normalization is refused. -/
def checkNetloc [u : UnicodeTables] (netloc : Text) : Except String Unit :=
  if netloc.all isAscii then .ok ()
  else
    let n := netloc.filter fun c ↦ c != '@' && c != ':' && c != '#' && c != '?'
    if n = u.nfkc n then .ok ()
    else if (u.nfkc n).any fun c ↦ c == '/' || c == '?' || c == '#' || c == '@' || c == ':' then
      .error ("netloc '" ++ String.ofList netloc ++
        "' contains invalid characters under NFKC normalization")
    else .ok ()

/-! ### The splitter -/

/-- The text with the characters the splitter ignores taken out. -/
def clean (url : Text) : Text :=
  (url.dropWhile isC0ControlOrSpace).filter fun c ↦ c != '\t' && c != '\r' && c != '\n'

/-- The scheme, when the text before the first colon is one, and the rest. -/
def splitScheme [u : UnicodeTables] (url : Text) : Text × Text :=
  match Text.partition ':' url with
  | (c :: cs, some rest) =>
    if isAsciiAlpha c && (c :: cs).all isSchemeChar then (u.lower (c :: cs), rest) else ([], url)
  | _ => ([], url)

/-- The network location, when the text starts with two slashes, and the rest. -/
def splitNetloc (url : Text) : Text × Text :=
  match url with
  | '/' :: '/' :: t =>
    (t.takeWhile fun c ↦ c != '/' && c != '?' && c != '#',
      t.dropWhile fun c ↦ c != '/' && c != '?' && c != '#')
  | _ => ([], url)

/-- The bracket checks: both brackets or none, and a well-formed bracketed host. -/
def checkBrackets [UnicodeTables] (netloc : Text) : Except String Unit :=
  if netloc.contains '[' != netloc.contains ']' then .error "Invalid IPv6 URL"
  else if netloc.contains '[' then checkBracketedNetloc netloc
  else .ok ()

/-- Split a URL. -/
def urlsplit [UnicodeTables] (url : Text) : Except String SplitResult := do
  let schemeRest := splitScheme (clean url)
  let netlocRest := splitNetloc schemeRest.2
  checkBrackets netlocRest.1
  let fragmentCut := Text.partition '#' netlocRest.2
  let queryCut := Text.partition '?' fragmentCut.1
  checkNetloc netlocRest.1
  return {
    scheme := schemeRest.1
    netloc := netlocRest.1
    path := queryCut.1
    query := queryCut.2.getD []
    fragment := fragmentCut.2.getD [] }

/-- Host and port texts of a network location, without the user information. -/
def hostinfo (netloc : Text) : Text × Option Text :=
  let hostinfo := (Text.rpartition '@' netloc).2
  let (hostname, port) :=
    match Text.partition '[' hostinfo with
    | (_, some bracketed) =>
      let (hostname, port) := Text.partition ']' bracketed
      (hostname, (Text.partition ':' (port.getD [])).2)
    | (_, none) => Text.partition ':' hostinfo
  (hostname, port.filter (· ≠ []))

/-- The host, lower-cased up to its zone. -/
def SplitResult.hostname [u : UnicodeTables] (parts : SplitResult) : Option Text :=
  let hostname := (hostinfo parts.netloc).1
  if hostname = [] then none
  else
    match Text.partition '%' hostname with
    | (host, none) => some (u.lower host)
    | (host, some zone) => some (u.lower host ++ '%' :: zone)

/-- The port. -/
def SplitResult.port [UnicodeTables] (parts : SplitResult) : Except String (Option ℕ) :=
  match (hostinfo parts.netloc).2 with
  | none => .ok none
  | some port =>
    if ¬port.all Text.isDigit then
      .error ("Port could not be cast to integer value as " ++ Text.repr port)
    else if 65535 < Text.toNat port then .error "Port out of range 0-65535"
    else .ok (some (Text.toNat port))

/-! ### References -/

/-- The reference names a scheme. -/
def hasScheme (ref : Text) : Bool :=
  match Text.partition ':' ref with
  | (c :: cs, some _) => isAsciiAlpha c && (c :: cs).all isSchemeChar
  | _ => false

/-- The reference is relative: it has neither a scheme nor a network location of its own. -/
def isRelative (ref : Text) : Bool := !hasScheme ref && !Text.startswith ref "//".toList

/-! ### The path -/

/-- What follows a network location is empty or starts with one of its three terminators. -/
theorem splitNetloc_rest {url : Text} (hne : (splitNetloc url).1 ≠ []) :
    (splitNetloc url).2 = [] ∨
      ∃ c t, (splitNetloc url).2 = c :: t ∧ (c = '/' ∨ c = '?' ∨ c = '#') := by
  unfold splitNetloc at hne ⊢
  split at hne
  next t =>
    rcases hd : t.dropWhile (fun c ↦ c != '/' && c != '?' && c != '#') with - | ⟨c, r⟩
    · exact Or.inl rfl
    · refine Or.inr ⟨c, r, rfl, ?_⟩
      have hc := List.head?_dropWhile_not (fun c ↦ c != '/' && c != '?' && c != '#') t
      rw [hd] at hc
      by_contra hcon
      simp only [not_or] at hcon
      simp [hcon.1, hcon.2.1, hcon.2.2] at hc
  next => exact absurd rfl hne

/-- Cutting at a character keeps the head of the text, or leaves nothing before the cut. -/
theorem partition_head {c d : Char} {t : Text} :
    (Text.partition c (d :: t)).1 = [] ∨ ∃ r, (Text.partition c (d :: t)).1 = d :: r := by
  by_cases h : (d != c) = true
  · exact Or.inr ⟨t.takeWhile (· != c), List.takeWhile_cons_of_pos (p := (· != c)) h⟩
  · exact Or.inl (List.takeWhile_cons_of_neg (p := (· != c)) h)

/-- A text that is empty or starts with a slash, `?` or `#`, cut at `#` and then at `?`, is empty
or starts with a slash. -/
theorem path_of_rest {rest : Text}
    (h : rest = [] ∨ ∃ c t, rest = c :: t ∧ (c = '/' ∨ c = '?' ∨ c = '#')) :
    (Text.partition '?' (Text.partition '#' rest).1).1 = [] ∨
      ∃ t, (Text.partition '?' (Text.partition '#' rest).1).1 = '/' :: t := by
  rcases h with rfl | ⟨c, t, rfl, rfl | rfl | rfl⟩
  · exact Or.inl rfl
  · rcases partition_head (c := '#') (d := '/') (t := t) with h | ⟨r, h⟩ <;> rw [h]
    · exact Or.inl rfl
    · exact partition_head
  · rcases partition_head (c := '#') (d := '?') (t := t) with h | ⟨r, h⟩ <;> rw [h]
    · exact Or.inl rfl
    · exact Or.inl rfl
  · exact Or.inl rfl

/-- **With a network location, the path is empty or absolute.** -/
theorem urlsplit_path [UnicodeTables] {url : Text} {parts : SplitResult}
    (h : urlsplit url = .ok parts) (hne : parts.netloc ≠ []) :
    parts.path = [] ∨ ∃ t, parts.path = '/' :: t := by
  simp only [urlsplit, bind, Except.bind] at h
  split at h
  · cases h
  split at h
  · cases h
  obtain rfl := Except.ok.inj h
  exact path_of_rest (splitNetloc_rest hne)

example : (letI : UnicodeTables := asciiTables; urlsplit "https://u@h.example:8443/a?b#c".toList) =
    .ok ⟨"https".toList, "u@h.example:8443".toList, "/a".toList, "b".toList, "c".toList⟩ := by
  decide +kernel

end Url
