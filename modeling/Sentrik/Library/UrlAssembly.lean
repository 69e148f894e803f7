import Sentrik.Library.UrlWeight

/-!
# Joining never adds to a URL

Splitting a URL leaves characters out and lowers the scheme; joining puts the parts of two texts together and
takes dot segments and empty ones away. So what a joiner returns is below the base and the reference behind each
other (`urljoin_below`).

`urljoin_eq_append_iff` says where it is that text (`Located`): splitting loses nothing of the two, the base has no
query and no fragment in the way, and the path they make is plain.
-/

namespace Url

open Text

/-! ### What splitting leaves -/

/-- A part behind its delimiter, nothing without it. -/
def behind (c : Char) (part : Text) : Text := if part = [] then [] else c :: part

/-- What stands behind the network location. -/
def ParseResult.rest (p : ParseResult) : Text :=
  p.path ++ (behind ';' p.params ++ (behind '?' p.query ++ behind '#' p.fragment))

/-- The parts of a URL with a network location behind each other. -/
def ParseResult.written (p : ParseResult) : Text := p.scheme ++ ':' :: '/' :: '/' :: (p.netloc ++ p.rest)

theorem behind_nil (c : Char) : behind c [] = [] := if_pos rfl

theorem weight_behind_ge {c : Char} {part : Text} (h : part ≠ []) : 2 ≤ weight (behind c part) := by
  have hpart := weight_pos h
  have hdelimiter := charWeight_pos c
  rw [behind, if_neg h, weight_cons]
  omega

theorem weight_behind_eq_zero {c : Char} {part : Text} : weight (behind c part) = 0 ↔ part = [] := by
  rw [weight_eq_zero, behind]
  split
  · next h => exact iff_of_true rfl h
  · next h => exact iff_of_false (List.cons_ne_nil c part) h

/-- What precedes the cut, and what follows it with its delimiter. -/
theorem partition_whole (c : Char) (t : Text) :
    (partition c t).1 ++ ((partition c t).2.map (c :: ·)).getD [] = t := by
  rw [partition]
  rcases hdrop : t.dropWhile (· != c) with - | ⟨d, rest⟩
  · have hwhole := List.takeWhile_append_dropWhile (p := (· != c)) (l := t)
    rw [hdrop] at hwhole
    exact hwhole
  · have hd : d = c := by
      have hstop := List.head?_dropWhile_not (· != c) t
      rw [hdrop] at hstop
      simpa using hstop
    have hwhole := List.takeWhile_append_dropWhile (p := (· != c)) (l := t)
    rw [hdrop, hd] at hwhole
    exact hwhole

theorem rpartition_whole (c : Char) (t : Text) :
    ((rpartition c t).1.map (· ++ [c])).getD [] ++ (rpartition c t).2 = t := by
  have hwhole := congrArg List.reverse (partition_whole c t.reverse)
  rw [List.reverse_append, List.reverse_reverse] at hwhole
  rw [rpartition]
  rcases hcut : partition c t.reverse with ⟨last, - | dir⟩
  · rw [hcut] at hwhole
    exact hwhole
  · rw [hcut] at hwhole
    have hdir : (c :: dir).reverse = dir.reverse ++ [c] := List.reverse_cons
    show (dir.reverse ++ [c]) ++ last.reverse = t
    rw [← hdir]
    exact hwhole

/-- Taking a part with its delimiter, or none. -/
theorem behind_sublist (c : Char) (part : Option Text) :
    (behind c (part.getD [])).Sublist ((part.map (c :: ·)).getD []) := by
  cases part with
  | none => exact List.Sublist.refl _
  | some part =>
    show (behind c part).Sublist (c :: part)
    rw [behind]
    split
    · exact List.nil_sublist _
    · exact List.Sublist.refl _

theorem partition_sublist (c : Char) (t : Text) :
    ((partition c t).1 ++ behind c ((partition c t).2.getD [])).Sublist t := by
  have hboth := (List.Sublist.refl (partition c t).1).append (behind_sublist c (partition c t).2)
  rw [partition_whole] at hboth
  exact hboth

theorem splitparams_sublist (path : Text) :
    ((splitparams path).1 ++ behind ';' (splitparams path).2).Sublist path := by
  have hwhole := rpartition_whole '/' path
  rw [splitparams]
  generalize rpartition '/' path = halves at hwhole ⊢
  obtain ⟨dir, last⟩ := halves
  have hcut := partition_sublist ';' last
  dsimp only at hwhole ⊢
  generalize partition ';' last = cut at hcut ⊢
  rcases cut with ⟨segment, - | params⟩
  · show (path ++ behind ';' []).Sublist path
    rw [behind_nil, List.append_nil]
  · show ((dir.map (· ++ ['/'])).getD [] ++ segment ++ behind ';' params).Sublist path
    rw [List.append_assoc, ← hwhole]
    exact (List.Sublist.refl _).append hcut

/-- The parameters are behind a path that is absolute if the whole is. -/
theorem splitparams_absolute {path : Text} (h : path = [] ∨ ∃ t, path = '/' :: t) :
    ((splitparams path).1 = [] ∧ (splitparams path).2 = []) ∨ ∃ t, (splitparams path).1 = '/' :: t := by
  rcases h with rfl | ⟨t, rfl⟩
  · exact .inl ⟨rfl, rfl⟩
  · have hwhole := rpartition_whole '/' ('/' :: t)
    have hlast : '/' ∉ (rpartition '/' ('/' :: t)).2 := by
      rw [rpartition, List.mem_reverse]
      exact not_mem_partition '/' _
    rw [splitparams]
    generalize rpartition '/' ('/' :: t) = halves at hwhole hlast ⊢
    rcases halves with ⟨- | dir, last⟩
    · -- the text has a slash
      have hmem : '/' ∈ '/' :: t := List.mem_cons_self
      rw [← hwhole] at hmem
      exact absurd hmem hlast
    · dsimp only at hwhole hlast ⊢
      rcases partition ';' last with ⟨segment, - | params⟩
      · exact .inr ⟨t, rfl⟩
      · cases dir with
        | nil => exact .inr ⟨segment, rfl⟩
        | cons c dir =>
          have hc : c = '/' := (List.cons.inj hwhole).1
          exact .inr ⟨dir ++ ['/'] ++ segment, by rw [hc]; rfl⟩

/-! ### Splitting never adds to a URL -/

section

variable [u : UnicodeTables]

/-- A scheme with its colon. -/
def schemeText (scheme : Text) : Text := if scheme = [] then [] else scheme ++ [':']

/-- A network location with its slashes. -/
def netlocText (netloc : Text) : Text := if netloc = [] then [] else '/' :: '/' :: netloc

omit u in
theorem splitNetloc_sublist (url : Text) : (netlocText (splitNetloc url).1 ++ (splitNetloc url).2).Sublist url := by
  unfold splitNetloc
  split
  · next t =>
    have hwhole := List.takeWhile_append_dropWhile (p := fun c ↦ c != '/' && c != '?' && c != '#') (l := t)
    have hfirst : (netlocText (t.takeWhile fun c ↦ c != '/' && c != '?' && c != '#')).Sublist
        ('/' :: '/' :: t.takeWhile fun c ↦ c != '/' && c != '?' && c != '#') := by
      rw [netlocText]
      split
      · exact List.nil_sublist _
      · exact List.Sublist.refl _
    have hboth := hfirst.append (List.Sublist.refl (t.dropWhile fun c ↦ c != '/' && c != '?' && c != '#'))
    rw [List.cons_append, List.cons_append, hwhole] at hboth
    exact hboth
  · exact List.Sublist.refl _

omit u in
/-- A scheme has ASCII characters only. -/
theorem toNat_of_isSchemeChar {c : Char} (h : isSchemeChar c = true) : c.toNat < 128 := by
  have hle : ∀ {d : Char}, c ≤ d → c.toNat ≤ d.toNat := fun {d} hcd ↦ hcd
  simp only [isSchemeChar, Text.isDigit, Bool.or_eq_true, Bool.and_eq_true, decide_eq_true_eq, beq_iff_eq] at h
  rcases h with ((((⟨-, hz⟩ | ⟨-, hz⟩) | ⟨-, hz⟩) | rfl) | rfl) | rfl
  · exact (hle hz).trans_lt (by decide)
  · exact (hle hz).trans_lt (by decide)
  · exact (hle hz).trans_lt (by decide)
  · decide
  · decide
  · decide

theorem splitScheme_below [laws : LawfulAsciiLower] (url : Text) :
    Below (schemeText (splitScheme url).1 ++ (splitScheme url).2) url := by
  have hwhole := partition_whole ':' url
  rw [splitScheme]
  split
  · next c cs rest hcut =>
    rw [hcut] at hwhole
    split
    · next hvalid =>
      have hascii : ∀ d ∈ c :: cs, d.toNat < 128 := by
        intro d hd
        exact toNat_of_isSchemeChar (List.all_eq_true.1 (Bool.and_eq_true_iff.1 hvalid).2 d hd)
      have hlower : Below (schemeText (u.lower (c :: cs))) (c :: cs ++ [':']) := by
        have hletters := below_map_toLower (c :: cs)
        rw [laws.lower_ascii hascii]
        exact hletters.append (Below.refl [':'])
      have hboth := hlower.append (Below.refl rest)
      rw [List.append_assoc (c :: cs)] at hboth
      have htext : c :: cs ++ ([':'] ++ rest) = url := hwhole
      rw [htext] at hboth
      exact hboth
    · exact Below.refl url
  · exact Below.refl url

omit u in
theorem clean_sublist (url : Text) : (clean url).Sublist url :=
  List.filter_sublist.trans (List.dropWhile_sublist _)

/-- **Splitting** never adds to a URL. -/
theorem urlsplit_below [LawfulAsciiLower] {url : Text} {parts : SplitResult} (h : urlsplit url = .ok parts) :
    Below (schemeText parts.scheme ++ (netlocText parts.netloc ++ (parts.path ++
      (behind '?' parts.query ++ behind '#' parts.fragment)))) url := by
  simp only [urlsplit, bind, Except.bind] at h
  split at h
  · cases h
  split at h
  · cases h
  obtain rfl := Except.ok.inj h
  have hclean := below_of_sublist (clean_sublist url)
  have hscheme := splitScheme_below (clean url)
  have hnetloc := below_of_sublist (splitNetloc_sublist (splitScheme (clean url)).2)
  have hfragment := below_of_sublist (partition_sublist '#' (splitNetloc (splitScheme (clean url)).2).2)
  have hquery := below_of_sublist
    (partition_sublist '?' (partition '#' (splitNetloc (splitScheme (clean url)).2).2).1)
  have hparts := (hquery.append (Below.refl (behind '#'
    ((partition '#' (splitNetloc (splitScheme (clean url)).2).2).2.getD [])))).trans hfragment
  rw [List.append_assoc] at hparts
  have hrest := ((Below.refl (netlocText (splitNetloc (splitScheme (clean url)).2).1)).append hparts).trans hnetloc
  exact (((Below.refl (schemeText (splitScheme (clean url)).1)).append hrest).trans hscheme).trans hclean

/-! ### The six parts -/

/-- The six parts are the five, and the parameters of the path. -/
theorem urlparse_eq_ok {url scheme : Text} {p : ParseResult} (h : urlparse url scheme = .ok p) :
    ∃ parts, urlsplit url = .ok parts ∧ p.scheme = (if parts.scheme = [] then scheme else parts.scheme) ∧
      p.netloc = parts.netloc ∧ p.query = parts.query ∧ p.fragment = parts.fragment ∧
      ((p.path = (splitparams parts.path).1 ∧ p.params = (splitparams parts.path).2) ∨
        (p.path = parts.path ∧ p.params = [])) := by
  rw [urlparse] at h
  cases hparts : urlsplit url with
  | error exc =>
    rw [hparts] at h
    cases h
  | ok parts =>
    rw [hparts] at h
    obtain rfl := Except.ok.inj h
    refine ⟨parts, rfl, rfl, rfl, rfl, rfl, ?_⟩
    by_cases hcut : uses_params.contains (if parts.scheme = [] then scheme else parts.scheme) = true ∧
        parts.path.contains ';' = true
    · exact .inl ⟨congrArg Prod.fst (if_pos hcut), congrArg Prod.snd (if_pos hcut)⟩
    · exact .inr ⟨congrArg Prod.fst (if_neg hcut), congrArg Prod.snd (if_neg hcut)⟩

/-- The scheme a URL has of its own, and what the six parts leave of the text. -/
theorem urlparse_below [LawfulAsciiLower] {url scheme : Text} {p : ParseResult} (h : urlparse url scheme = .ok p) :
    ∃ own, p.scheme = (if own = [] then scheme else own) ∧
      Below (schemeText own ++ (netlocText p.netloc ++ p.rest)) url := by
  obtain ⟨parts, hparts, hscheme, hnetloc, hquery, hfragment, hpath⟩ := urlparse_eq_ok h
  refine ⟨parts.scheme, hscheme, ?_⟩
  have hsplit := urlsplit_below hparts
  have hparams : Below (p.path ++ behind ';' p.params) parts.path := by
    rcases hpath with ⟨hpath, hparams⟩ | ⟨hpath, hparams⟩
    · rw [hpath, hparams]
      exact below_of_sublist (splitparams_sublist parts.path)
    · rw [hpath, hparams, behind_nil, List.append_nil]
      exact Below.refl parts.path
  have hrest := hparams.append (Below.refl (behind '?' parts.query ++ behind '#' parts.fragment))
  rw [List.append_assoc] at hrest
  rw [ParseResult.rest, hnetloc, hquery, hfragment]
  exact ((Below.refl _).append ((Below.refl _).append hrest)).trans hsplit

/-- With a network location the path is absolute, or there is none. -/
theorem path_of_urlparse {url scheme : Text} {p : ParseResult} (h : urlparse url scheme = .ok p)
    (hne : p.netloc ≠ []) : (p.path = [] ∧ p.params = []) ∨ ∃ t, p.path = '/' :: t := by
  obtain ⟨parts, hparts, -, hnetloc, -, -, hpath⟩ := urlparse_eq_ok h
  have habsolute := urlsplit_path hparts (hnetloc ▸ hne)
  rcases hpath with ⟨hpath, hparams⟩ | ⟨hpath, hparams⟩
  · rw [hpath, hparams]
    exact splitparams_absolute habsolute
  · rw [hpath, hparams]
    exact habsolute.imp (⟨·, rfl⟩) id

/-! ### Directories -/

/-- The text ends with a slash. -/
def EndsSlash (t : Text) : Prop := ∃ dir, t = dir ++ ['/']

omit u in
theorem EndsSlash.ne_nil {t : Text} (h : EndsSlash t) : t ≠ [] := by
  obtain ⟨dir, rfl⟩ := h
  exact List.append_ne_nil_of_right_ne_nil dir (List.cons_ne_nil _ _)

omit u in
theorem EndsSlash.of_append {s t : Text} (h : EndsSlash (s ++ t)) (ht : t ≠ []) : EndsSlash t := by
  obtain ⟨dir, hdir⟩ := h
  obtain ⟨t', last, rfl⟩ := (List.eq_nil_or_concat' t).resolve_left ht
  rw [← List.append_assoc] at hdir
  exact ⟨t', by rw [List.append_inj_right' hdir rfl]⟩

omit u in
/-- What follows another character is not empty. -/
theorem EndsSlash.of_append_cons {s t : Text} {c : Char} (h : EndsSlash (s ++ c :: t)) (hc : c ≠ '/') :
    EndsSlash t := by
  have hcons := h.of_append (List.cons_ne_nil c t)
  rcases eq_or_ne t [] with rfl | ht
  · obtain ⟨dir, hdir⟩ := hcons
    cases dir with
    | nil => exact absurd (List.cons.inj hdir).1 hc
    | cons d dir => exact absurd (List.cons.inj hdir).2.symm (List.append_ne_nil_of_right_ne_nil dir (List.cons_ne_nil _ _))
  · exact EndsSlash.of_append (s := [c]) hcons ht

omit u in
theorem EndsSlash.dropWhile {t : Text} {p : Char → Bool} (h : EndsSlash t) (hp : p '/' = false) :
    EndsSlash (t.dropWhile p) := by
  have hwhole := List.takeWhile_append_dropWhile (p := p) (l := t)
  have hne : t.dropWhile p ≠ [] := by
    intro hnil
    obtain ⟨dir, rfl⟩ := h
    have hslash := List.dropWhile_eq_nil_iff.1 hnil '/' (List.mem_append_right dir List.mem_cons_self)
    rw [hp] at hslash
    cases hslash
  rw [← hwhole] at h
  exact h.of_append hne

omit u in
/-- A part without what follows the delimiter ends as the text does. -/
theorem EndsSlash.partition {t : Text} {c : Char} (h : EndsSlash t) (hc : c ≠ '/')
    (hrest : (Text.partition c t).2.getD [] = []) : Text.partition c t = (t, none) := by
  have hwhole := partition_whole c t
  generalize Text.partition c t = cut at hwhole hrest ⊢
  rcases cut with ⟨front, - | rest⟩
  · rw [← hwhole]
    exact congrArg (·, none) (List.append_nil front).symm
  · obtain rfl : rest = [] := hrest
    rw [← hwhole] at h
    exact absurd rfl (h.of_append_cons hc).ne_nil

omit u in
theorem EndsSlash.clean {t : Text} (h : EndsSlash t) : EndsSlash (clean t) := by
  obtain ⟨dir, hdir⟩ := h.dropWhile (p := isC0ControlOrSpace) (by decide)
  rw [Url.clean, hdir, List.filter_append]
  exact ⟨_, rfl⟩

theorem EndsSlash.splitScheme {t : Text} (h : EndsSlash t) : EndsSlash (splitScheme t).2 := by
  have hwhole := partition_whole ':' t
  unfold Url.splitScheme
  split
  · next c cs rest hcut =>
    split
    · rw [hcut] at hwhole
      rw [← hwhole] at h
      exact h.of_append_cons (s := c :: cs) (by decide)
    · exact h
  · exact h

omit u in
theorem EndsSlash.splitNetloc {t : Text} (h : EndsSlash t) (hne : (splitNetloc t).1 ≠ []) :
    EndsSlash (splitNetloc t).2 := by
  unfold Url.splitNetloc at hne ⊢
  split at hne
  · next t =>
    have ht : t ≠ [] := by
      rintro rfl
      exact hne rfl
    exact (h.of_append (s := ['/', '/']) ht).dropWhile (by decide)
  · exact absurd rfl hne

/-- **A base that ends with a slash** has a directory for its path, unless the slash is in a query or fragment. -/
theorem directory_of_urlparse {base : Text} {b : ParseResult} (h : urlparse base [] = .ok b)
    (hslash : EndsSlash base) (hne : b.netloc ≠ []) (hparams : b.params = []) (hquery : b.query = [])
    (hfragment : b.fragment = []) : EndsSlash b.path := by
  obtain ⟨parts, hparts, -, hnetloc, hquery', hfragment', hpath⟩ := urlparse_eq_ok h
  rw [hnetloc] at hne
  rw [hquery'] at hquery
  rw [hfragment'] at hfragment
  have hdirectory : EndsSlash parts.path := by
    simp only [urlsplit, bind, Except.bind] at hparts
    split at hparts
    · cases hparts
    split at hparts
    · cases hparts
    obtain rfl := Except.ok.inj hparts
    have hrest := hslash.clean.splitScheme.splitNetloc hne
    dsimp only at hquery hfragment ⊢
    rw [hrest.partition (by decide) hfragment] at hquery ⊢
    rw [hrest.partition (by decide) hquery]
    exact hrest
  rcases hpath with ⟨hpath, hparams'⟩ | ⟨hpath, -⟩
  · rw [hparams'] at hparams
    rw [hpath]
    have hwhole := rpartition_whole '/' parts.path
    rw [splitparams] at hparams ⊢
    generalize rpartition '/' parts.path = halves at hwhole hparams ⊢
    obtain ⟨dir, last⟩ := halves
    have hcut := partition_whole ';' last
    dsimp only at hwhole hparams ⊢
    generalize Text.partition ';' last = cut at hcut hparams ⊢
    rcases cut with ⟨segment, - | params⟩
    · exact hdirectory
    · obtain rfl : params = [] := hparams
      have hend : EndsSlash ((dir.map (· ++ ['/'])).getD [] ++ (segment ++ [';'])) := by
        have hlast : segment ++ [';'] = last := hcut
        rw [hlast, hwhole]
        exact hdirectory
      rw [← List.append_assoc] at hend
      exact absurd rfl (hend.of_append_cons (by decide)).ne_nil
  · rw [hpath]
    exact hdirectory

/-! ### Putting the parts together -/

omit u in
theorem append_behind (c : Char) (part t : Text) :
    (if part = [] then t else t ++ c :: part) = t ++ behind c part := by
  rw [behind]
  split
  · exact (List.append_nil t).symm
  · rfl

omit u in
/-- A URL with a network location is put together part by part, with a slash in front of its path. -/
theorem urlunparse_eq {p : ParseResult} (hscheme : p.scheme ≠ []) (hnetloc : p.netloc ≠ []) :
    urlunparse p = p.scheme ++ ':' :: '/' :: '/' :: (p.netloc ++
      ((if p.path ++ behind ';' p.params = [] then [] else rooted (p.path ++ behind ';' p.params)) ++
        (behind '?' p.query ++ behind '#' p.fragment))) := by
  have hslash : ∀ t : Text, (if t ≠ [] ∧ t.head? ≠ some '/' then '/' :: t else t) =
      if t = [] then [] else rooted t := by
    intro t
    rw [rooted]
    by_cases ht : t = []
    · rw [if_neg fun h ↦ h.1 ht, if_pos ht, ht]
    · by_cases hhead : t.head? = some '/'
      · rw [if_neg fun h ↦ h.2 hhead, if_neg ht, if_pos hhead]
      · rw [if_pos ⟨ht, hhead⟩, if_neg ht, if_neg hhead]
  rw [urlunparse, append_behind, append_behind, append_behind, if_pos (Or.inl hnetloc), if_neg hscheme, hslash]
  simp only [List.append_assoc, List.cons_append]

omit u in
theorem urlunparse_eq_written {p : ParseResult} (hscheme : p.scheme ≠ []) (hnetloc : p.netloc ≠ [])
    (hpath : (p.path = [] ∧ p.params = []) ∨ ∃ t, p.path = '/' :: t) : urlunparse p = p.written := by
  rw [urlunparse_eq hscheme hnetloc, ParseResult.written, ParseResult.rest, ← List.append_assoc p.path]
  rcases hpath with ⟨hpath, hparams⟩ | ⟨t, ht⟩
  · rw [hpath, hparams]
    rfl
  · rw [ht, if_neg (by exact List.cons_ne_nil _ _)]
    exact congrArg _ rfl

omit u in
/-- A joined path is put behind the network location as it is rooted. -/
theorem urlunparse_joined {p : ParseResult} (hscheme : p.scheme ≠ []) (hnetloc : p.netloc ≠ []) (path : Text) :
    urlunparse { p with path := if path = [] then ['/'] else path } = { p with path := rooted path }.written := by
  rw [urlunparse_eq (p := { p with path := if path = [] then ['/'] else path }) hscheme hnetloc,
    ParseResult.written, ParseResult.rest, ← List.append_assoc (rooted path)]
  dsimp only
  cases path with
  | nil => rfl
  | cons c t =>
    rw [if_neg (List.cons_ne_nil c t), if_neg (by exact List.cons_ne_nil _ _), rooted, rooted]
    by_cases hc : c = '/'
    · rw [hc]
      rfl
    · have hhead : ¬some c = some '/' := fun h ↦ hc (Option.some.inj h)
      rw [if_neg (by exact hhead), if_neg (by exact hhead)]
      rfl

/-! ### Joining -/

/-- The base of a join: a URL with a network location, and a scheme that knows relative references. -/
structure IsBase (b : ParseResult) : Prop where
  relative : uses_relative.contains b.scheme = true
  located : uses_netloc.contains b.scheme = true
  scheme_ne_nil : b.scheme ≠ []
  netloc_ne_nil : b.netloc ≠ []

/-- Where joining puts the reference behind the base: splitting loses nothing of the two, and either the base has
no query and no fragment, and the two make a plain path, or the reference is but a query and a fragment that the
base does not have. -/
def Located (base ref : Text) : Prop :=
  ref = [] ∨ ∃ b r, urlparse base [] = .ok b ∧ urlparse ref b.scheme = .ok r ∧ b.written = base ∧ r.rest = ref ∧
    ((b.params = [] ∧ b.query = [] ∧ b.fragment = [] ∧ PlainPath (b.path ++ r.path)) ∨
      (r.path = [] ∧ r.params = [] ∧ b.fragment = [] ∧ (b.query = [] ∨ r.query = [])))

omit u in
/-- One query takes the place of the other. -/
theorem weight_query_le (query query' : Text) :
    weight (behind '?' (if query' = [] then query else query')) ≤
        weight (behind '?' query) + weight (behind '?' query') ∧
      (weight (behind '?' (if query' = [] then query else query')) =
        weight (behind '?' query) + weight (behind '?' query') → query = [] ∨ query' = []) := by
  split
  · next hnil => exact ⟨by omega, fun _ ↦ .inr hnil⟩
  · refine ⟨by omega, fun heq ↦ ?_⟩
    have hzero : weight (behind '?' query) = 0 := by omega
    exact .inl (weight_behind_eq_zero.1 hzero)

omit u in
theorem weight_written (p : ParseResult) :
    weight p.written = weight p.scheme + 3 + weight p.netloc + weight p.rest := by
  have hcolon : charWeight ':' = 1 := by decide
  have hslash : charWeight '/' = 1 := by decide
  rw [ParseResult.written, weight_append, weight_cons, weight_cons, weight_cons, weight_append, hcolon, hslash]
  omega

omit u in
theorem weight_rest (p : ParseResult) : weight p.rest =
    weight p.path + weight (behind ';' p.params) + weight (behind '?' p.query) + weight (behind '#' p.fragment) := by
  rw [ParseResult.rest, weight_append, weight_append, weight_append]
  omega

/-- The base without what splitting loses. -/
theorem written_below [LawfulAsciiLower] {base : Text} {b : ParseResult} (hb : urlparse base [] = .ok b)
    (h : IsBase b) : Below b.written base := by
  obtain ⟨own, hscheme, hbelow⟩ := urlparse_below hb
  have hown : own = b.scheme := by
    rw [hscheme]
    split
    · assumption
    · rfl
  rw [hown, schemeText, if_neg h.scheme_ne_nil, netlocText, if_neg h.netloc_ne_nil] at hbelow
  rw [ParseResult.written]
  simpa only [List.append_assoc, List.cons_append, List.nil_append] using hbelow

/-- The reference without what splitting loses. -/
theorem rest_below [LawfulAsciiLower] {ref scheme : Text} {r : ParseResult} (hr : urlparse ref scheme = .ok r) :
    weight (netlocText r.netloc) + weight r.rest ≤ weight ref ∧ (weight r.rest = weight ref → r.rest = ref) := by
  obtain ⟨own, -, hle, heq⟩ := urlparse_below hr
  rw [weight_append, weight_append] at hle heq
  refine ⟨by omega, fun hsame ↦ ?_⟩
  have hscheme : schemeText own = [] := weight_eq_zero.1 (by omega)
  have hnetloc : netlocText r.netloc = [] := weight_eq_zero.1 (by omega)
  have htext := heq (by omega)
  rw [hscheme, hnetloc] at htext
  exact htext

/-- A reference that is all path, query and fragment has no scheme of its own. -/
theorem relative_of_rest [LawfulAsciiLower] {ref scheme : Text} {r : ParseResult}
    (hr : urlparse ref scheme = .ok r) (hrest : r.rest = ref) : r.scheme = scheme ∧ r.netloc = [] := by
  obtain ⟨own, hscheme, hle, -⟩ := urlparse_below hr
  rw [weight_append, weight_append, hrest] at hle
  have hown : schemeText own = [] := weight_eq_zero.1 (by omega)
  have hnetloc : netlocText r.netloc = [] := weight_eq_zero.1 (by omega)
  rw [schemeText] at hown
  rw [netlocText] at hnetloc
  constructor
  · split at hown
    · next hnil => rw [hscheme, if_pos hnil]
    · exact absurd hown (List.append_ne_nil_of_right_ne_nil own (List.cons_ne_nil _ _))
  · split at hnetloc
    · assumption
    · exact absurd hnetloc (List.cons_ne_nil _ _)

omit u in
/-- The directory of an absolute path is absolute. -/
theorem absolute_of_directory {path dir : Text} (h : path = [] ∨ ∃ t, path = '/' :: t) (hdir : path = dir ++ ['/']) :
    dir = [] ∨ ∃ t, dir = '/' :: t := by
  rcases h with hnil | ⟨t, ht⟩
  · exact absurd (hnil.symm.trans hdir).symm (List.append_ne_nil_of_right_ne_nil dir (List.cons_ne_nil _ _))
  · cases dir with
    | nil => exact .inl rfl
    | cons c dir => exact .inr ⟨dir, by rw [(List.cons.inj (ht.symm.trans hdir)).1]⟩

/-- **What is joined** is never heavier than the two behind each other, and weighs the same only where it is
located. -/
theorem weight_joinParsed [LawfulAsciiLower] {base ref : Text} {b r : ParseResult}
    (hb : urlparse base [] = .ok b) (h : IsBase b) (hslash : EndsSlash base) (hr : urlparse ref b.scheme = .ok r) :
    weight (joinParsed b r ref) ≤ weight (base ++ ref) ∧
      (weight (joinParsed b r ref) = weight (base ++ ref) → Located base ref) := by
  obtain ⟨hbase, hbaseEq⟩ := written_below hb h
  obtain ⟨href, hrefEq⟩ := rest_below hr
  have hbWeight := weight_written b
  have hbRest := weight_rest b
  have hrRest := weight_rest r
  rw [weight_append]
  rw [joinParsed]
  by_cases hscheme : r.scheme ≠ b.scheme ∨ ¬uses_relative.contains r.scheme
  · -- the reference stands for itself
    rw [if_pos hscheme]
    exact ⟨by omega, fun heq ↦ by omega⟩
  rw [not_or, not_not, not_not] at hscheme
  have hlocated : uses_netloc.contains r.scheme = true := hscheme.1 ▸ h.located
  have hschemeNil : r.scheme ≠ [] := hscheme.1 ▸ h.scheme_ne_nil
  rw [if_neg (by rw [not_or, not_not, not_not]; exact hscheme)]
  by_cases hnetloc : r.netloc ≠ []
  · -- the reference keeps its network location
    have hwhole := weight_written r
    have hloc : weight (netlocText r.netloc) = weight r.netloc + 2 := by
      have hslashWeight : charWeight '/' = 1 := by decide
      rw [netlocText, if_neg hnetloc, weight_cons, weight_cons, hslashWeight]
      omega
    have hpos := weight_pos h.netloc_ne_nil
    rw [if_pos ⟨hlocated, hnetloc⟩, urlunparse_eq_written hschemeNil hnetloc (path_of_urlparse hr hnetloc)]
    rw [hscheme.1] at hwhole
    exact ⟨by omega, fun heq ↦ by omega⟩
  rw [if_neg fun hcon ↦ hnetloc hcon.2, if_pos hlocated]
  have habsolute := path_of_urlparse hb h.netloc_ne_nil
  by_cases hpath : r.path = [] ∧ r.params = []
  · -- the reference has a query and a fragment
    rw [if_pos hpath]
    rw [urlunparse_eq_written (p := { r with
      netloc := b.netloc
      path := b.path
      params := b.params
      query := if r.query = [] then b.query else r.query }) hschemeNil h.netloc_ne_nil habsolute,
      weight_written, weight_rest]
    obtain ⟨hquery, hqueryEq⟩ := weight_query_le b.query r.query
    dsimp only
    rw [hscheme.1]
    refine ⟨by omega, fun heq ↦ .inr ⟨b, r, hb, hr, hbaseEq (by omega), hrefEq (by omega), .inr ⟨hpath.1, hpath.2, ?_,
      hqueryEq (by omega)⟩⟩⟩
    have hzero : weight (behind '#' b.fragment) = 0 := by omega
    exact weight_behind_eq_zero.1 hzero
  -- the path is resolved against that of the base
  rw [if_neg hpath]
  rw [urlunparse_joined (p := { r with netloc := b.netloc }) hschemeNil h.netloc_ne_nil, weight_written, weight_rest]
  dsimp only
  show (weight r.scheme + 3 + weight b.netloc + (weight (joinedPath b.path r.path) + _ + _ + _) ≤ _) ∧
    (weight r.scheme + 3 + weight b.netloc + (weight (joinedPath b.path r.path) + _ + _ + _) = _ → _)
  rw [hscheme.1]
  by_cases hplain : b.params = [] ∧ b.query = [] ∧ b.fragment = []
  · obtain ⟨dir, hdir⟩ := directory_of_urlparse hb hslash h.netloc_ne_nil hplain.1 hplain.2.1 hplain.2.2
    have hroot := absolute_of_directory (habsolute.imp And.left id) hdir
    obtain ⟨hjoined, hjoinedEq⟩ := weight_joinedPath hroot r.path
    have hboth : dir ++ '/' :: r.path = b.path ++ r.path := by
      rw [hdir, List.append_assoc]
      rfl
    rw [← hdir, hboth, weight_append] at hjoined hjoinedEq
    exact ⟨by omega, fun heq ↦ .inr ⟨b, r, hb, hr, hbaseEq (by omega), hrefEq (by omega), .inl
      ⟨hplain.1, hplain.2.1, hplain.2.2, hjoinedEq (by omega)⟩⟩⟩
  · -- something of the base is lost
    have hjoined := weight_joinedPath_le (habsolute.imp And.left id) r.path
    have hlost : 2 ≤ weight (behind ';' b.params) + weight (behind '?' b.query) + weight (behind '#' b.fragment) := by
      by_cases hparams : b.params = []
      · by_cases hquery : b.query = []
        · have hfragment : b.fragment ≠ [] := fun hnil ↦ hplain ⟨hparams, hquery, hnil⟩
          have hge := weight_behind_ge (c := '#') hfragment
          omega
        · have hge := weight_behind_ge (c := '?') hquery
          omega
      · have hge := weight_behind_ge (c := ';') hparams
        omega
    exact ⟨by omega, fun heq ↦ by omega⟩

/-- **Where it is located**, the reference is put behind the base. -/
theorem joinParsed_of_located [LawfulAsciiLower] {base ref : Text} {b r : ParseResult}
    (hb : urlparse base [] = .ok b) (h : IsBase b) (hslash : EndsSlash base) (hr : urlparse ref b.scheme = .ok r)
    (hwritten : b.written = base) (hrest : r.rest = ref)
    (hloc : (b.params = [] ∧ b.query = [] ∧ b.fragment = [] ∧ PlainPath (b.path ++ r.path)) ∨
      (r.path = [] ∧ r.params = [] ∧ b.fragment = [] ∧ (b.query = [] ∨ r.query = []))) :
    joinParsed b r ref = base ++ ref := by
  obtain ⟨hscheme, hnetloc⟩ := relative_of_rest hr hrest
  have hrelative : ¬(r.scheme ≠ b.scheme ∨ ¬uses_relative.contains r.scheme) := by
    rw [not_or, not_not, not_not, hscheme]
    exact ⟨rfl, h.relative⟩
  have hlocated : uses_netloc.contains r.scheme = true := hscheme ▸ h.located
  have hschemeNil : r.scheme ≠ [] := hscheme ▸ h.scheme_ne_nil
  rw [joinParsed, if_neg hrelative, if_neg fun hcon ↦ hcon.2 hnetloc, if_pos hlocated]
  have habsolute := path_of_urlparse hb h.netloc_ne_nil
  by_cases hpath : r.path = [] ∧ r.params = []
  · have hqueries : b.fragment = [] ∧ (b.query = [] ∨ r.query = []) := by
      rcases hloc with ⟨-, hquery, hfragment, -⟩ | ⟨-, -, hfragment, hquery⟩
      · exact ⟨hfragment, .inl hquery⟩
      · exact ⟨hfragment, hquery⟩
    have hquery : behind '?' (if r.query = [] then b.query else r.query) =
        behind '?' b.query ++ behind '?' r.query := by
      by_cases hnil : r.query = []
      · rw [if_pos hnil, hnil, behind_nil, List.append_nil]
      · rw [if_neg hnil, hqueries.2.resolve_right hnil, behind_nil, List.nil_append]
    rw [if_pos hpath, urlunparse_eq_written (p := { r with
      netloc := b.netloc
      path := b.path
      params := b.params
      query := if r.query = [] then b.query else r.query }) hschemeNil h.netloc_ne_nil habsolute]
    rw [← hrest, ← hwritten, ParseResult.written, ParseResult.rest, ParseResult.written, ParseResult.rest,
      ParseResult.rest, hpath.1, hpath.2, hqueries.1, hquery, hscheme]
    simp only [behind_nil, List.append_assoc, List.cons_append, List.nil_append, List.append_nil]
  · have hplain : b.params = [] ∧ b.query = [] ∧ b.fragment = [] ∧ PlainPath (b.path ++ r.path) :=
      hloc.resolve_right fun hcon ↦ hpath ⟨hcon.1, hcon.2.1⟩
    obtain ⟨hparams, hquery, hfragment, hplain⟩ := hplain
    obtain ⟨dir, hdir⟩ := directory_of_urlparse hb hslash h.netloc_ne_nil hparams hquery hfragment
    have hroot := absolute_of_directory (habsolute.imp And.left id) hdir
    have hboth : dir ++ '/' :: r.path = b.path ++ r.path := by
      rw [hdir, List.append_assoc]
      rfl
    have hjoined := joinedPath_of_plain hroot (hboth ▸ hplain)
    rw [← hdir, hboth] at hjoined
    rw [if_neg hpath, urlunparse_joined (p := { r with netloc := b.netloc }) hschemeNil h.netloc_ne_nil]
    show ParseResult.written { r with netloc := b.netloc, path := joinedPath b.path r.path } = _
    rw [hjoined, ← hrest, ← hwritten, ParseResult.written, ParseResult.rest, ParseResult.written, ParseResult.rest,
      ParseResult.rest, hparams, hquery, hfragment, hscheme]
    simp only [behind_nil, List.append_assoc, List.cons_append, List.append_nil]

/-- What the joiner returns for two texts that are not empty. -/
theorem urljoin_eq_ok_iff {base ref out : Text} {b : ParseResult} (hb : urlparse base [] = .ok b)
    (hslash : EndsSlash base) (href : ref ≠ []) : urljoin base ref = .ok out ↔
      ∃ r, urlparse ref b.scheme = .ok r ∧ joinParsed b r ref = out := by
  rw [urljoin, if_neg hslash.ne_nil, if_neg href, hb]
  show (urlparse ref b.scheme >>= fun r ↦ pure (joinParsed b r ref)) = _ ↔ _
  cases urlparse ref b.scheme with
  | error exc =>
    refine iff_of_false (fun h ↦ by cases h) ?_
    rintro ⟨_, h, -⟩
    cases h
  | ok r =>
    constructor
    · exact fun h ↦ ⟨r, rfl, Except.ok.inj h⟩
    · rintro ⟨r', hr, hout⟩
      obtain rfl := Except.ok.inj hr
      exact congrArg Except.ok hout

/-- **Joining puts the reference behind the base** exactly where it is located. -/
theorem urljoin_eq_append_iff [LawfulAsciiLower] {base ref : Text} {b : ParseResult}
    (hb : urlparse base [] = .ok b) (h : IsBase b) (hslash : EndsSlash base) :
    urljoin base ref = .ok (base ++ ref) ↔ Located base ref := by
  by_cases href : ref = []
  · refine iff_of_true ?_ (.inl href)
    rw [urljoin, if_neg hslash.ne_nil, if_pos href, href, List.append_nil]
  rw [urljoin_eq_ok_iff hb hslash href]
  constructor
  · rintro ⟨r, hr, hout⟩
    exact (weight_joinParsed hb h hslash hr).2 (congrArg weight hout)
  · rintro (hnil | ⟨b', r, hb', hr, hwritten, hrest, hloc⟩)
    · exact absurd hnil href
    · obtain rfl := Except.ok.inj (hb.symm.trans hb')
      exact ⟨r, hr, joinParsed_of_located hb h hslash hr hwritten hrest hloc⟩

/-- **Joining never adds** to the base and the reference. -/
theorem urljoin_below [LawfulAsciiLower] {base ref out : Text} {b : ParseResult}
    (hb : urlparse base [] = .ok b) (h : IsBase b) (hslash : EndsSlash base) (hout : urljoin base ref = .ok out) :
    Below out (base ++ ref) := by
  by_cases href : ref = []
  · rw [urljoin, if_neg hslash.ne_nil, if_pos href] at hout
    rw [href, List.append_nil, ← Except.ok.inj hout]
    exact Below.refl base
  · obtain ⟨r, hr, rfl⟩ := (urljoin_eq_ok_iff hb hslash href).1 hout
    obtain ⟨hle, hlocated⟩ := weight_joinParsed hb h hslash hr
    refine ⟨hle, fun heq ↦ ?_⟩
    have happend := (urljoin_eq_append_iff hb h hslash).2 (hlocated heq)
    exact Except.ok.inj (hout.symm.trans happend)

/-! ### Texts that start alike -/

/-- Nothing, or a text that starts with a slash. -/
def Continues (t : Text) : Prop := t = [] ∨ ∃ rest, t = '/' :: rest

variable {s t t' : Text}

omit u in
theorem clean_append (s : Text) (ht : Continues t) : clean (s ++ t) = clean s ++ t.filter isKept := by
  have hslash : t.dropWhile isC0ControlOrSpace = t := by
    rcases ht with rfl | ⟨rest, rfl⟩
    · rfl
    · exact List.dropWhile_cons_of_neg (by decide)
  have hdrop : (s ++ t).dropWhile isC0ControlOrSpace = s.dropWhile isC0ControlOrSpace ++ t := by
    rw [List.dropWhile_append, hslash]
    split
    · next hempty => rw [List.isEmpty_iff.1 hempty, List.nil_append]
    · rfl
  rw [clean, hdrop, List.filter_append]
  rfl

omit u in
theorem Continues.filter (ht : Continues t) : Continues (t.filter isKept) := by
  rcases ht with rfl | ⟨rest, rfl⟩
  · exact .inl rfl
  · exact .inr ⟨rest.filter isKept, List.filter_cons_of_pos (by decide)⟩

theorem splitScheme_append (s : Text) (ht : Continues t) :
    splitScheme (s ++ t) = ((splitScheme s).1, (splitScheme s).2 ++ t) := by
  by_cases hcolon : ':' ∈ s
  · have hcut : ∃ front rest, ':' ∉ front ∧ s = front ++ ':' :: rest := by
      obtain ⟨front, rest, hs, hfront⟩ := List.eq_append_cons_of_mem hcolon
      exact ⟨front, rest, hfront, hs⟩
    obtain ⟨front, rest, hfront, rfl⟩ := hcut
    have hparts : ∀ r : Text, Text.partition ':' (front ++ ':' :: r) = (front, some r) := by
      intro r
      rw [Text.partition_append hfront, Text.partition_cons_self, List.append_nil]
    rw [List.append_assoc, List.cons_append, splitScheme, splitScheme, hparts, hparts]
    cases front with
    | nil => rfl
    | cons c cs =>
      dsimp only
      split
      · rfl
      · simp only [List.append_assoc, List.cons_append]
  · -- a slash is in no scheme
    have hnone : ∀ t : Text, Continues t → splitScheme (s ++ t) = ([], s ++ t) := by
      intro t ht
      rw [splitScheme, Text.partition_append hcolon]
      rcases ht with rfl | ⟨rest, rfl⟩
      · cases s with
        | nil => rfl
        | cons c cs => rfl
      · have hfront : (Text.partition ':' ('/' :: rest)).1 = '/' :: rest.takeWhile (· != ':') := by
          rw [Text.partition, List.takeWhile_cons_of_pos (by decide)]
        rw [hfront]
        cases s with
        | nil =>
          dsimp only [List.nil_append]
          split
          · next c cs r hcut =>
            obtain rfl : '/' = c := (List.cons.inj (congrArg Prod.fst hcut)).1
            rfl
          · rfl
        | cons d s =>
          dsimp only [List.cons_append]
          split
          · next c cs r hcut =>
            obtain ⟨rfl, rfl⟩ := List.cons.inj (congrArg Prod.fst hcut)
            have hslash : ((d :: (s ++ '/' :: rest.takeWhile (· != ':'))).all isSchemeChar) = false := by
              rw [List.all_eq_false]
              exact ⟨'/', List.mem_cons_of_mem d (List.mem_append_right s List.mem_cons_self), by decide⟩
            rw [hslash, Bool.and_false]
            rfl
          · rfl
    have hself := hnone [] (.inl rfl)
    rw [List.append_nil] at hself
    rw [hnone t ht, hself]

omit u in
theorem takeWhile_append_continues {p : Char → Bool} (hp : p '/' = false) (s : Text) (ht : Continues t) :
    (s ++ t).takeWhile p = s.takeWhile p := by
  induction s with
  | nil =>
    rcases ht with rfl | ⟨rest, rfl⟩
    · rfl
    · exact List.takeWhile_cons_of_neg (by rw [hp]; decide)
  | cons c s ih =>
    cases hc : p c with
    | true => rw [List.cons_append, List.takeWhile_cons_of_pos hc, List.takeWhile_cons_of_pos hc, ih]
    | false =>
      have hnot : ¬p c = true := by
        rw [hc]
        decide
      rw [List.cons_append, List.takeWhile_cons_of_neg hnot, List.takeWhile_cons_of_neg hnot]

omit u in
theorem continues_of_slashes (h : ∀ c ∈ t, c = '/') : Continues t := by
  cases t with
  | nil => exact .inl rfl
  | cons c t => exact .inr ⟨t, by rw [h c List.mem_cons_self]⟩

omit u in
theorem splitNetloc_of_ne {c : Char} (hc : c ≠ '/') (s : Text) : splitNetloc (c :: s) = ([], c :: s) := by
  unfold splitNetloc
  split
  · next heq => exact absurd (List.cons.inj heq).1 hc
  · rfl

omit u in
/-- The network location ends where the text goes on with a slash. -/
theorem splitNetloc_append (hne : (splitNetloc (s ++ t)).1 ≠ []) (ht : ∀ c ∈ t, c = '/') (ht' : Continues t') :
    (splitNetloc (s ++ t')).1 = (splitNetloc (s ++ t)).1 := by
  have hslashes : ∀ rest : Text, (∀ c ∈ rest, c = '/') →
      rest.takeWhile (fun c ↦ c != '/' && c != '?' && c != '#') = [] := by
    intro rest hrest
    cases rest with
    | nil => rfl
    | cons c rest =>
      obtain rfl := hrest c List.mem_cons_self
      exact List.takeWhile_cons_of_neg (p := fun c ↦ c != '/' && c != '?' && c != '#') (by decide)
  rcases s with - | ⟨c, - | ⟨d, s⟩⟩
  · -- slashes alone have no network location
    rcases t with - | ⟨c, - | ⟨d, rest⟩⟩
    · exact absurd rfl hne
    · obtain rfl := ht c List.mem_cons_self
      exact absurd rfl hne
    · obtain rfl := ht c List.mem_cons_self
      obtain rfl := ht d (List.mem_cons_of_mem _ List.mem_cons_self)
      exact absurd (hslashes rest fun x hx ↦ ht x (List.mem_cons_of_mem _ (List.mem_cons_of_mem _ hx))) hne
  · by_cases hc : c = '/'
    · obtain rfl := hc
      rcases t with - | ⟨d, rest⟩
      · exact absurd rfl hne
      · obtain rfl := ht d List.mem_cons_self
        exact absurd (hslashes rest fun x hx ↦ ht x (List.mem_cons_of_mem _ hx)) hne
    · exact absurd (congrArg Prod.fst (splitNetloc_of_ne hc t)) hne
  · by_cases hboth : c = '/' ∧ d = '/'
    · obtain ⟨rfl, rfl⟩ := hboth
      show (s ++ t').takeWhile _ = (s ++ t).takeWhile _
      rw [takeWhile_append_continues (by decide) s ht',
        takeWhile_append_continues (by decide) s (continues_of_slashes ht)]
    · have hnone : ∀ r : Text, (splitNetloc (c :: d :: r)).1 = [] := by
        intro r
        unfold splitNetloc
        split
        · next heq =>
          obtain ⟨hc, hrest⟩ := List.cons.inj heq
          exact absurd ⟨hc, (List.cons.inj hrest).1⟩ hboth
        · rfl
      exact absurd (hnone (s ++ t)) hne

/-- **A text that starts alike** and goes on with a slash has the same scheme and network location. -/
theorem urlsplit_of_start {parts : SplitResult} (h : urlsplit (s ++ t) = .ok parts) (hne : parts.netloc ≠ [])
    (ht : ∀ c ∈ t, c = '/') (ht' : Continues t') :
    ∃ parts', urlsplit (s ++ t') = .ok parts' ∧ parts'.scheme = parts.scheme ∧ parts'.netloc = parts.netloc := by
  have hkept : t.filter isKept = t := by
    rw [List.filter_eq_self]
    intro c hc
    rw [ht c hc]
    rfl
  have hcontinues := continues_of_slashes ht
  simp only [urlsplit, clean_append s hcontinues, hkept, splitScheme_append _ hcontinues, bind, Except.bind] at h
  simp only [urlsplit, clean_append s ht', splitScheme_append _ ht'.filter, bind, Except.bind]
  split at h
  · cases h
  · next hbrackets =>
    split at h
    · cases h
    · next hcheck =>
      obtain rfl := Except.ok.inj h
      have hsame := splitNetloc_append hne ht ht'.filter
      rw [hsame, hbrackets, hcheck]
      exact ⟨_, rfl, rfl, rfl⟩

end

end Url
