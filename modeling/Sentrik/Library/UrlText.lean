import Mathlib.Algebra.GroupWithZero.Nat
import Sentrik.Library.Json
import Sentrik.Library.Url

/-!
# URLs in parts

A URL with a network location, as its scheme, its location, the segments of its path, and a tail with the
query and the fragment. `urlsplit_written` takes such a URL apart again, and `split_pathOf` its path.
-/

namespace Text

variable {c : Char} {s t : Text}

/-! ### Stripping -/

section

variable [u : UnicodeTables]

/-- Remove white space at the end. -/
def rstripSpace (t : Text) : Text := (t.reverse.dropWhile u.isSpace).reverse

/-- Behind something that does not end with white space. -/
theorem rstripSpace_append {a : Text} {c : Char} (hlast : a.getLast? = some c)
    (hc : u.isSpace c = false) (b : Text) : rstripSpace (a ++ b) = a ++ rstripSpace b := by
  obtain ⟨ys, rfl⟩ := List.getLast?_eq_some_iff.1 hlast
  rw [rstripSpace, rstripSpace, List.reverse_append, List.dropWhile_append]
  split
  · next hnil =>
    have hdrop : b.reverse.dropWhile u.isSpace = [] := List.isEmpty_iff.1 hnil
    have hkeep : (ys ++ [c]).reverse.dropWhile u.isSpace = (ys ++ [c]).reverse := by
      rw [List.reverse_append]
      exact List.dropWhile_cons_of_neg (by rw [hc]; decide)
    rw [hkeep, hdrop, List.reverse_reverse, List.reverse_nil, List.append_nil]
  · rw [List.reverse_append, List.reverse_reverse]

/-- Where a text does not begin with white space, it is stripped at the end. -/
theorem strip_of_head {a : Text} {c : Char} (hhead : a.head? = some c) (hc : u.isSpace c = false) :
    strip a = rstripSpace a := by
  obtain ⟨x, rfl⟩ := List.head?_eq_some_iff.1 hhead
  rw [strip, List.dropWhile_cons_of_neg (by rw [hc]; decide), rstripSpace]

theorem rstripSpace_of_last {a : Text} {c : Char} (hlast : a.getLast? = some c)
    (hc : u.isSpace c = false) : rstripSpace a = a := by
  have happend := rstripSpace_append hlast hc []
  rw [List.append_nil] at happend
  rw [happend]
  exact List.append_nil a

theorem rstripSpace_isPrefix (t : Text) : rstripSpace t <+: t := by
  have hsuffix := List.reverse_prefix.2 (List.dropWhile_suffix u.isSpace (l := t.reverse))
  rwa [List.reverse_reverse] at hsuffix

theorem strip_infix (t : Text) : strip t <:+: t :=
  (rstripSpace_isPrefix (t.dropWhile u.isSpace)).isInfix.trans (List.dropWhile_suffix u.isSpace).isInfix

/-- A text that begins or ends with white space gets shorter. -/
theorem length_strip_lt {a : Text} {c : Char} (hc : u.isSpace c = true)
    (h : a.head? = some c ∨ a.getLast? = some c) : (strip a).length < a.length := by
  have hleft : strip a = rstripSpace (a.dropWhile u.isSpace) := rfl
  have hle := (rstripSpace_isPrefix (a.dropWhile u.isSpace)).length_le
  rw [hleft]
  rcases h with hhead | hlast
  · obtain ⟨x, rfl⟩ := List.head?_eq_some_iff.1 hhead
    have hdrop : (c :: x).dropWhile u.isSpace = x.dropWhile u.isSpace :=
      List.dropWhile_cons_of_pos hc
    have hshort := (List.dropWhile_suffix u.isSpace (l := x)).length_le
    rw [hdrop] at hle ⊢
    rw [List.length_cons]
    omega
  · obtain ⟨ys, rfl⟩ := List.getLast?_eq_some_iff.1 hlast
    have hshort := (List.dropWhile_suffix u.isSpace (l := ys ++ [c])).length_le
    rw [List.length_append, List.length_singleton] at hshort ⊢
    by_cases hnil : (ys ++ [c]).dropWhile u.isSpace = []
    · rw [hnil]
      exact Nat.succ_pos _
    · -- what is left still ends with white space
      obtain ⟨front, hfront⟩ := List.dropWhile_suffix u.isSpace (l := ys ++ [c])
      have hend : ((ys ++ [c]).dropWhile u.isSpace).getLast? = some c := by
        have hwhole : (ys ++ [c]).getLast? = some c := List.getLast?_concat
        rw [← hfront, List.getLast?_append_of_ne_nil _ hnil] at hwhole
        exact hwhole
      obtain ⟨zs, hzs⟩ := List.getLast?_eq_some_iff.1 hend
      have hcut : rstripSpace (zs ++ [c]) = rstripSpace zs := by
        rw [rstripSpace, List.reverse_append, List.reverse_singleton, List.singleton_append,
          List.dropWhile_cons_of_pos hc, rstripSpace]
      have hzle := (rstripSpace_isPrefix zs).length_le
      rw [hzs, List.length_append, List.length_singleton] at hshort
      rw [hzs, hcut]
      omega

end

/-! ### Cutting -/

theorem partition_append (hs : c ∉ s) (t : Text) :
    partition c (s ++ t) = (s ++ (partition c t).1, (partition c t).2) := by
  have hall : ∀ x ∈ s, (x != c) = true := by
    intro x hx
    rw [bne_iff_ne]
    rintro rfl
    exact hs hx
  rw [partition, List.takeWhile_append_of_pos hall, List.dropWhile_append_of_pos hall]
  rfl

theorem partition_cons_self (c : Char) (t : Text) : partition c (c :: t) = ([], some t) := by
  rw [partition, List.takeWhile_cons_of_neg (by simp), List.dropWhile_cons_of_neg (by simp)]
  rfl

theorem not_mem_partition (c : Char) (t : Text) : c ∉ (partition c t).1 := by
  intro h
  have hne := List.all_eq_true.1 List.all_takeWhile c h
  rw [bne_self_eq_false] at hne
  cases hne

theorem partition_subset (c : Char) (t : Text) : (partition c t).1 ⊆ t := List.takeWhile_subset _

theorem split_ne_nil (c : Char) (t : Text) : split c t ≠ [] := by
  cases t with
  | nil => exact List.cons_ne_nil _ _
  | cons x t =>
    rw [split]
    split
    · exact List.cons_ne_nil _ _
    · split <;> exact List.cons_ne_nil _ _

theorem split_cons_self (c : Char) (t : Text) : split c (c :: t) = [] :: split c t := by
  rw [split, if_pos rfl]

theorem split_cons_of_ne {x : Char} (hx : x ≠ c) {part : Text} {rest : List Text}
    (ht : split c t = part :: rest) : split c (x :: t) = (x :: part) :: rest := by
  rw [split, if_neg hx, ht]

/-- The parts do not have the character. -/
theorem not_mem_of_mem_split {part : Text} (h : part ∈ split c t) : c ∉ part := by
  induction t generalizing part with
  | nil =>
    obtain rfl := List.mem_singleton.1 h
    exact List.not_mem_nil
  | cons x t ih =>
    rcases eq_or_ne x c with rfl | hx
    · rw [split_cons_self] at h
      rcases List.mem_cons.1 h with rfl | h
      · exact List.not_mem_nil
      · exact ih h
    · obtain ⟨p, ps, hp⟩ := List.exists_cons_of_ne_nil (split_ne_nil c t)
      rw [split_cons_of_ne hx hp] at h
      rw [hp] at ih
      rcases List.mem_cons.1 h with rfl | h
      · rw [List.mem_cons, not_or]
        exact ⟨hx.symm, ih List.mem_cons_self⟩
      · exact ih (List.mem_cons_of_mem p h)

theorem subset_of_mem_split {part : Text} (h : part ∈ split c t) : part ⊆ t := by
  induction t generalizing part with
  | nil =>
    obtain rfl := List.mem_singleton.1 h
    exact List.Subset.refl _
  | cons x t ih =>
    rcases eq_or_ne x c with rfl | hx
    · rw [split_cons_self] at h
      rcases List.mem_cons.1 h with rfl | h
      · exact List.nil_subset _
      · exact List.subset_cons_of_subset x (ih h)
    · obtain ⟨p, ps, hp⟩ := List.exists_cons_of_ne_nil (split_ne_nil c t)
      rw [split_cons_of_ne hx hp] at h
      rw [hp] at ih
      rcases List.mem_cons.1 h with rfl | h
      · exact List.cons_subset_cons x (ih List.mem_cons_self)
      · exact List.subset_cons_of_subset x (ih (List.mem_cons_of_mem p h))

/-- Parts with a separator between them: the first, and the others each behind one. -/
theorem intercalate_cons (sep a : Text) (l : List Text) :
    List.intercalate sep (a :: l) = a ++ l.flatMap (sep ++ ·) := by
  induction l generalizing a with
  | nil => simp [List.intercalate]
  | cons b l ih =>
    rw [List.flatMap_cons, List.append_assoc, ← ih b]
    simp [List.intercalate, List.intersperse]

theorem split_append_cons (c : Char) (a b : Text) : split c (a ++ c :: b) = split c a ++ split c b := by
  induction a with
  | nil => exact split_cons_self c b
  | cons x a ih =>
    rcases eq_or_ne x c with rfl | hx
    · rw [List.cons_append, split_cons_self, split_cons_self, ih, List.cons_append]
    · obtain ⟨part, rest, hsplit⟩ := List.exists_cons_of_ne_nil (split_ne_nil c a)
      rw [hsplit] at ih
      rw [List.cons_append, split_cons_of_ne hx ih, split_cons_of_ne hx hsplit]
      rfl

/-- The parts with the character between them are the text. -/
theorem intercalate_split (c : Char) (t : Text) : List.intercalate [c] (split c t) = t := by
  induction t with
  | nil => rfl
  | cons x t ih =>
    obtain ⟨part, rest, hsplit⟩ := List.exists_cons_of_ne_nil (split_ne_nil c t)
    rw [hsplit, intercalate_cons] at ih
    rcases eq_or_ne x c with rfl | hx
    · rw [split_cons_self, intercalate_cons, hsplit, List.flatMap_cons, List.append_assoc, ih]
      rfl
    · rw [split_cons_of_ne hx hsplit, intercalate_cons, List.cons_append, ih]

/-- The parts of a text are as long as it, each counted with a separator. -/
theorem sum_length_split (c : Char) (t : Text) :
    ((split c t).map fun s ↦ s.length + 1).sum = t.length + 1 := by
  induction t with
  | nil => rfl
  | cons x t ih =>
    rcases eq_or_ne x c with rfl | hx
    · rw [split_cons_self, List.map_cons, List.sum_cons, ih, List.length_nil, List.length_cons]
      omega
    · obtain ⟨part, rest, hsplit⟩ := List.exists_cons_of_ne_nil (split_ne_nil c t)
      rw [hsplit, List.map_cons, List.sum_cons] at ih
      rw [split_cons_of_ne hx hsplit, List.map_cons, List.sum_cons, List.length_cons, List.length_cons]
      omega

/-- Parts with a separator between them are as long as the parts, each counted with one. -/
theorem length_intercalate (c : Char) {l : List Text} (h : l ≠ []) :
    (List.intercalate [c] l).length + 1 = (l.map fun s ↦ s.length + 1).sum := by
  obtain ⟨a, l, rfl⟩ := List.exists_cons_of_ne_nil h
  have hrest : (l.flatMap ([c] ++ ·)).length = (l.map fun s ↦ s.length + 1).sum := by
    rw [List.length_flatMap]
    refine congrArg List.sum (List.map_congr_left fun s _ ↦ ?_)
    rw [List.length_append, List.length_singleton]
    omega
  rw [intercalate_cons, List.length_append, hrest, List.map_cons, List.sum_cons]
  omega

/-- What stands before the first occurrence is the first part. -/
theorem split_append (hs : c ∉ s) {part : Text} {rest : List Text} (ht : split c t = part :: rest) :
    split c (s ++ t) = (s ++ part) :: rest := by
  induction s with
  | nil => exact ht
  | cons x s ih =>
    rw [List.mem_cons, not_or] at hs
    exact split_cons_of_ne (Ne.symm hs.1) (ih hs.2)

end Text

namespace Url

/-! ### Paths -/

/-- The path with these segments. -/
def pathOf (segments : List Text) : Text := segments.flatMap fun s ↦ '/' :: s

@[simp] theorem pathOf_nil : pathOf [] = [] := rfl

@[simp] theorem pathOf_cons (s : Text) (l : List Text) : pathOf (s :: l) = '/' :: (s ++ pathOf l) := rfl

theorem pathOf_append (l l' : List Text) : pathOf (l ++ l') = pathOf l ++ pathOf l' := List.flatMap_append

theorem pathOf_eq (l : List Text) : pathOf l = [] ∨ ∃ t, pathOf l = '/' :: t := by
  cases l with
  | nil => exact .inl rfl
  | cons s l => exact .inr ⟨_, rfl⟩

theorem split_pathOf {l : List Text} (hl : ∀ s ∈ l, '/' ∉ s) : Text.split '/' (pathOf l) = [] :: l := by
  induction l with
  | nil => rfl
  | cons s l ih =>
    obtain ⟨hs, hl⟩ := List.forall_mem_cons.1 hl
    have hsplit := Text.split_append hs (ih hl)
    rw [List.append_nil] at hsplit
    rw [pathOf_cons, Text.split_cons_self, hsplit]

theorem joinWith_cons (s : Text) (l : List Text) : Json.joinWith ['/'] (s :: l) = s ++ pathOf l := by
  induction l generalizing s with
  | nil =>
    rw [pathOf_nil, List.append_nil]
    exact List.append_nil s
  | cons s' l ih =>
    rw [pathOf_cons, ← ih s']
    rfl

/-! ### URLs -/

/-- Neither a delimiter of the parts of a URL nor a line break. -/
def isSegmentChar (c : Char) : Bool :=
  !(c == '/' || c == '?' || c == '#' || c == '\t' || c == '\r' || c == '\n')

/-- Segments that stand before delimiters are as they are cut there. -/
theorem segment_inj {s s' t t' : Text} (hs : s.all isSegmentChar = true) (hs' : s'.all isSegmentChar = true)
    (ht : ∀ c ∈ t.head?, isSegmentChar c = false) (ht' : ∀ c ∈ t'.head?, isSegmentChar c = false)
    (h : s ++ t = s' ++ t') : s = s' ∧ t = t' := by
  have hcut : ∀ {s t : Text}, s.all isSegmentChar = true → (∀ c ∈ t.head?, isSegmentChar c = false) →
      (s ++ t).takeWhile isSegmentChar = s := by
    intro s t hs ht
    rw [List.takeWhile_append_of_pos (List.all_eq_true.1 hs)]
    cases t with
    | nil => exact List.append_nil s
    | cons c t =>
      rw [List.takeWhile_cons_of_neg (by rw [ht c rfl]; exact Bool.false_ne_true), List.append_nil]
  have heq : s = s' := by rw [← hcut hs ht, h, hcut hs' ht']
  subst heq
  exact ⟨rfl, List.append_cancel_left h⟩

/-- Not taken out of a URL before it is split. -/
def isKept (c : Char) : Bool := c != '\t' && c != '\r' && c != '\n'

/-- A URL with a network location. -/
structure UrlText [UnicodeTables] where
  scheme : Text
  netloc : Text
  segments : List Text
  /-- The query and the fragment, with the characters before them. -/
  tail : Text
  scheme_valid : scheme.head?.any isAsciiAlpha = true ∧ scheme.all isSchemeChar = true
  netloc_valid : netloc.all isSegmentChar = true ∧ checkBrackets netloc = .ok () ∧ checkNetloc netloc = .ok ()
  segments_valid : ∀ s ∈ segments, s.all isSegmentChar = true
  tail_valid : tail.head?.all (fun c ↦ c == '?' || c == '#') = true ∧
    tail.all isKept = true

theorem isKept_of_isSchemeChar {c : Char} (h : isSchemeChar c = true) : isKept c = true := by
  simp only [isKept, Bool.and_eq_true, bne_iff_ne]
  refine ⟨⟨?_, ?_⟩, ?_⟩
  all_goals
    rintro rfl
    exact absurd h (by decide)

theorem isKept_of_isSegmentChar {c : Char} (h : isSegmentChar c = true) : isKept c = true := by
  simp only [isKept, Bool.and_eq_true, bne_iff_ne]
  refine ⟨⟨?_, ?_⟩, ?_⟩
  all_goals
    rintro rfl
    exact absurd h (by decide)

theorem isSegmentChar_of_isKept {c : Char} (h : isKept c = true) (hslash : c ≠ '/') (hquery : c ≠ '?')
    (hfragment : c ≠ '#') : isSegmentChar c = true := by
  simp only [isKept, Bool.and_eq_true, bne_iff_ne] at h
  simp only [isSegmentChar, Bool.not_eq_true', Bool.or_eq_false_iff, beq_eq_false_iff_ne]
  exact ⟨⟨⟨⟨⟨hslash, hquery⟩, hfragment⟩, h.1.1⟩, h.1.2⟩, h.2⟩

theorem not_mem_of_class {p : Char → Bool} {t : Text} {c : Char} (hc : p c = false) (h : t.all p = true) :
    c ∉ t := by
  intro hmem
  rw [List.all_eq_true.1 h c hmem] at hc
  cases hc

theorem mem_pathOf {c : Char} {l : List Text} (h : c ∈ pathOf l) : c = '/' ∨ ∃ s ∈ l, c ∈ s := by
  obtain ⟨s, hs, hc⟩ := List.mem_flatMap.1 h
  rcases List.mem_cons.1 hc with rfl | hc
  · exact .inl rfl
  · exact .inr ⟨s, hs, hc⟩

/-- A text that is cut at a delimiter, or not at all. -/
theorem splitNetloc_eq {netloc rest : Text} (hnetloc : netloc.all isSegmentChar = true)
    (hrest : ∀ c ∈ rest.head?, isSegmentChar c = false ∧ isKept c = true) :
    splitNetloc ('/' :: '/' :: (netloc ++ rest)) = (netloc, rest) := by
  have hall : ∀ c ∈ netloc, (c != '/' && c != '?' && c != '#') = true := by
    intro c hc
    have hclass := List.all_eq_true.1 hnetloc c hc
    simp only [isSegmentChar, Bool.not_eq_true', Bool.or_eq_false_iff, beq_eq_false_iff_ne] at hclass
    simp only [Bool.and_eq_true, bne_iff_ne]
    exact ⟨⟨hclass.1.1.1.1.1, hclass.1.1.1.1.2⟩, hclass.1.1.1.2⟩
  show (List.takeWhile _ (netloc ++ rest), List.dropWhile _ (netloc ++ rest)) = _
  rw [List.takeWhile_append_of_pos hall, List.dropWhile_append_of_pos hall]
  cases rest with
  | nil => rw [List.takeWhile_nil, List.dropWhile_nil, List.append_nil]
  | cons c rest =>
    obtain ⟨hsegment, hkept⟩ := hrest c rfl
    have hstop : ¬(c != '/' && c != '?' && c != '#') = true := by
      intro hcon
      simp only [isKept, isSegmentChar, Bool.and_eq_true, bne_iff_ne, ne_eq, Bool.not_eq_false', Bool.or_eq_true,
        beq_iff_eq] at hcon hsegment hkept
      tauto
    rw [List.takeWhile_cons_of_neg (p := fun c ↦ c != '/' && c != '?' && c != '#') hstop,
      List.dropWhile_cons_of_neg (p := fun c ↦ c != '/' && c != '?' && c != '#') hstop, List.append_nil]

namespace UrlText

variable [u : UnicodeTables] (U : UrlText)

/-- The text of the URL with these segments in its path. -/
def written (segments : List Text) : Text :=
  U.scheme ++ ':' :: '/' :: '/' :: (U.netloc ++ (pathOf segments ++ U.tail))

def text : Text := U.written U.segments

def path : Text := pathOf U.segments

/-- What the URL with these segments is split into. -/
def parts (segments : List Text) : SplitResult where
  scheme := u.lower U.scheme
  netloc := U.netloc
  path := pathOf segments
  query := (Text.partition '?' (Text.partition '#' U.tail).1).2.getD []
  fragment := (Text.partition '#' U.tail).2.getD []

theorem clean_written {segments : List Text} (h : ∀ s ∈ segments, s.all isSegmentChar = true) :
    clean (U.written segments) = U.written segments := by
  obtain ⟨hhead, hscheme⟩ := U.scheme_valid
  have hdrop : (U.written segments).dropWhile isC0ControlOrSpace = U.written segments := by
    rw [written]
    cases hs : U.scheme with
    | nil =>
      rw [hs] at hhead
      cases hhead
    | cons c cs =>
      rw [hs] at hhead
      refine List.dropWhile_cons_of_neg ?_
      have halpha : isAsciiAlpha c = true := hhead
      simp only [isAsciiAlpha, Bool.or_eq_true, Bool.and_eq_true, decide_eq_true_eq] at halpha
      simp only [isC0ControlOrSpace, decide_eq_true_eq]
      have hlo : 65 ≤ c.toNat := by
        rcases halpha with ⟨hlo, -⟩ | ⟨hlo, -⟩
        · exact le_trans (by decide) (show ('a').toNat ≤ c.toNat from hlo)
        · exact (show ('A').toNat ≤ c.toNat from hlo)
      omega
  rw [clean, hdrop, List.filter_eq_self]
  intro c hc
  show isKept c = true
  rw [written, List.mem_append, List.mem_cons, List.mem_cons, List.mem_cons, List.mem_append, List.mem_append] at hc
  rcases hc with hc | rfl | rfl | rfl | hc | hc | hc
  · exact isKept_of_isSchemeChar (List.all_eq_true.1 hscheme c hc)
  · rfl
  · rfl
  · rfl
  · exact isKept_of_isSegmentChar (List.all_eq_true.1 U.netloc_valid.1 c hc)
  · rcases mem_pathOf hc with rfl | ⟨s, hs, hc⟩
    · rfl
    · exact isKept_of_isSegmentChar (List.all_eq_true.1 (h s hs) c hc)
  · exact List.all_eq_true.1 U.tail_valid.2 c hc

theorem isKept_written {segments : List Text} (h : ∀ s ∈ segments, s.all isSegmentChar = true) :
    ∀ c ∈ U.written segments, isKept c = true := by
  intro c hc
  rw [← U.clean_written h] at hc
  exact (List.mem_filter.1 hc).2

theorem splitScheme_written (segments : List Text) :
    splitScheme (U.written segments) = (u.lower U.scheme, '/' :: '/' :: (U.netloc ++ (pathOf segments ++ U.tail))) := by
  obtain ⟨hhead, hscheme⟩ := U.scheme_valid
  rw [splitScheme, written, Text.partition_append (not_mem_of_class (by decide) hscheme), Text.partition_cons_self,
    List.append_nil]
  cases hs : U.scheme with
  | nil =>
    rw [hs] at hhead
    cases hhead
  | cons c cs =>
    rw [hs] at hhead hscheme
    have halpha : isAsciiAlpha c = true := hhead
    show (if (isAsciiAlpha c && (c :: cs).all isSchemeChar) = true then _ else _) = _
    rw [halpha, hscheme]
    rfl

theorem head_rest (segments : List Text) :
    ∀ c ∈ (pathOf segments ++ U.tail).head?, isSegmentChar c = false ∧ isKept c = true := by
  intro c hc
  rcases pathOf_eq segments with hpath | ⟨t, hpath⟩
  · rw [hpath, List.nil_append] at hc
    have htail := U.tail_valid.1
    rw [Option.mem_def.1 hc] at htail
    rcases Bool.or_eq_true_iff.1 htail with heq | heq
    all_goals
      obtain rfl := beq_iff_eq.1 heq
      exact ⟨by decide, by decide⟩
  · rw [hpath] at hc
    obtain rfl := Option.some.inj hc
    exact ⟨by decide, by decide⟩

/-- What is before the fragment is no fragment, and starts with the query. -/
theorem partition_tail : (Text.partition '#' U.tail).1 = [] ∨ ∃ t, (Text.partition '#' U.tail).1 = '?' :: t := by
  have htail := U.tail_valid.1
  cases ht : U.tail with
  | nil => exact .inl rfl
  | cons c t =>
    rw [ht] at htail
    rcases Bool.or_eq_true_iff.1 htail with heq | heq
    · obtain rfl := beq_iff_eq.1 heq
      rcases partition_head (c := '#') (d := '?') (t := t) with hnil | ⟨r, hr⟩
      · exact .inl hnil
      · exact .inr ⟨r, hr⟩
    · obtain rfl := beq_iff_eq.1 heq
      rw [Text.partition_cons_self]
      exact .inl rfl

/-- **A URL in parts** is split into these parts. -/
theorem urlsplit_written {segments : List Text} (h : ∀ s ∈ segments, s.all isSegmentChar = true) :
    urlsplit (U.written segments) = .ok (U.parts segments) := by
  obtain ⟨hnetloc, hbrackets, hcheck⟩ := U.netloc_valid
  have hpath : ∀ {c}, isSegmentChar c = false → c ≠ '/' → c ∉ pathOf segments := by
    intro c hc hslash hmem
    rcases mem_pathOf hmem with heq | ⟨s, hs, hmem⟩
    · exact hslash heq
    · exact not_mem_of_class hc (h s hs) hmem
  have hfragment : Text.partition '#' (pathOf segments ++ U.tail) =
      (pathOf segments ++ (Text.partition '#' U.tail).1, (Text.partition '#' U.tail).2) :=
    Text.partition_append (hpath (by decide) (by decide)) U.tail
  have hquery : Text.partition '?' (pathOf segments ++ (Text.partition '#' U.tail).1) =
      (pathOf segments, (Text.partition '?' (Text.partition '#' U.tail).1).2) := by
    rw [Text.partition_append (hpath (by decide) (by decide))]
    rcases U.partition_tail with hnil | ⟨t, ht⟩
    · rw [hnil]
      exact congrArg (·, none) (List.append_nil _)
    · rw [ht, Text.partition_cons_self, List.append_nil]
  simp only [urlsplit, U.clean_written h, splitScheme_written, splitNetloc_eq hnetloc (U.head_rest segments),
    hbrackets, hcheck, hfragment, hquery]
  rfl

end UrlText

/-! ### What a path never has -/

theorem splitScheme_subset [UnicodeTables] (url : Text) : (splitScheme url).2 ⊆ url := by
  unfold splitScheme
  split
  · next c cs rest hpartition =>
    split
    · have hrest : (url.dropWhile (· != ':')).tail? = some rest := congrArg Prod.snd hpartition
      intro x hx
      cases hdrop : url.dropWhile (· != ':') with
      | nil =>
        rw [hdrop] at hrest
        cases hrest
      | cons d r =>
        rw [hdrop] at hrest
        obtain rfl := Option.some.inj hrest
        refine List.dropWhile_subset (· != ':') ?_
        rw [hdrop]
        exact List.mem_cons_of_mem d hx
    · exact List.Subset.refl url
  · exact List.Subset.refl url

theorem splitNetloc_subset (url : Text) : (splitNetloc url).2 ⊆ url := by
  unfold splitNetloc
  split
  · exact fun x hx ↦ List.mem_cons_of_mem _ (List.mem_cons_of_mem _ ((List.dropWhile_subset _) hx))
  · exact List.Subset.refl url

theorem path_of_urlsplit [UnicodeTables] {url : Text} {parts : SplitResult} (h : urlsplit url = .ok parts) :
    '?' ∉ parts.path ∧ '#' ∉ parts.path ∧ parts.path.all isKept = true := by
  simp only [urlsplit, bind, Except.bind] at h
  split at h
  · cases h
  split at h
  · cases h
  obtain rfl := Except.ok.inj h
  have hquery := Text.partition_subset '?'
    (Text.partition '#' (splitNetloc (splitScheme (clean url)).2).2).1
  refine ⟨Text.not_mem_partition '?' _, fun hmem ↦ Text.not_mem_partition '#' _ (hquery hmem), ?_⟩
  refine List.all_eq_true.2 fun c hc ↦ ?_
  have hclean : c ∈ clean url :=
    splitScheme_subset _ (splitNetloc_subset _ (Text.partition_subset '#' _ (hquery hc)))
  exact (List.mem_filter.1 hclean).2

end Url
