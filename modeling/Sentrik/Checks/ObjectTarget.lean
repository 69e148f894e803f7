import Sentrik.Checks.Builtin
import Sentrik.Discovery.Forms
import Sentrik.Library.Substitution
import Sentrik.Library.UrlText

/-!
# The URL of another account's object

The check for foreign objects puts an object id into the URL of an endpoint. Where the URL has placeholders
itself, all of them are replaced; where only the template has one, what stands behind the last slash of the
URL is, its query included. The id is the replacement text of a substitution, so its escapes are read.

`EndpointUrl` is a URL in parts. `build_target_iff` says for which URLs and ids the identifier, and nothing
else, is exchanged.
-/

namespace Sentrik

open Url (SplitResult)

namespace Checks

namespace BolaCheck

/-! ### The patterns -/

/-- The pattern `_PATH_ID`. -/
def pathId : Regex := .alt
  (.all [.char (· == '{'), .word "id".toList, .char (· == '}')])
  (.all [.char (· == '{'), .many (· != '}') true, .word "id".toList, .many (· != '}') true,
    .char (· == '}')])

/-- The last slash, and what stands behind it. -/
def lastSegment : Regex := .all [.char (· == '/'), .many (· != '/') true, .last]

/-- The runtime's library matches these two patterns. -/
structure PathPatterns [lib : StandardLibrary] [Regex.GroupNames] : Prop where
  search : ∀ t, lib.search _PATH_ID t = (Regex.searchFrom pathId none t).isSome
  sub : ∀ replacement t, (lib.sub _PATH_ID replacement t).toOption = pathId.sub replacement t
  sub_last : ∀ replacement t,
    (lib.sub "/[^/]*$".toList replacement t).toOption = lastSegment.sub replacement t

/-! ### Placeholders -/

/-- A text between braces, with an `id` in it. -/
def Placeholder (m : Text) : Prop :=
  ∃ body, m = '{' :: (body ++ ['}']) ∧ '}' ∉ body ∧ Discovery.occurs "id".toList body = true

theorem Placeholder.head_eq {m : Text} (h : Placeholder m) : ∃ t, m = '{' :: t := by
  obtain ⟨body, rfl, -⟩ := h
  exact ⟨_, rfl⟩

theorem occurs_iff {word t : Text} :
    Discovery.occurs word t = true ↔ ∃ s u, t = s ++ u ∧ Regex.startsWord word u = true := by
  rw [Discovery.occurs, List.any_eq_true]
  constructor
  · rintro ⟨u, hu, hword⟩
    obtain ⟨s, rfl⟩ := (List.mem_tails _ _).1 hu
    exact ⟨s, u, rfl, hword⟩
  · rintro ⟨s, u, rfl, hword⟩
    exact ⟨u, (List.mem_tails _ _).2 (List.suffix_append s u), hword⟩

theorem not_mem_of_all {t : Text} (h : ∀ c ∈ t, (c != '}') = true) : '}' ∉ t := fun hmem ↦ by
  cases h '}' hmem

/-- The word for an id, which has no brace. -/
theorem exists_of_startsWord {t : Text} (h : Regex.startsWord "id".toList t = true) :
    ∃ c d u, t = c :: d :: u ∧ c ≠ '}' ∧ d ≠ '}' := by
  cases t with
  | nil => cases h
  | cons c t =>
    obtain ⟨hc, ht⟩ := Bool.and_eq_true_iff.1 h
    cases t with
    | nil => cases ht
    | cons d u =>
      obtain ⟨hd, -⟩ := Bool.and_eq_true_iff.1 ht
      refine ⟨c, d, u, rfl, ?_, ?_⟩
      · rintro rfl
        exact absurd hc (by decide)
      · rintro rfl
        exact absurd hd (by decide)

open Regex in
theorem placeholder_of_reaches {a b : Place} (h : Reaches pathId a b) :
    ∃ m, Placeholder m ∧ a.rest = m ++ b.rest := by
  rcases reaches_alt.1 h with h | h
  · obtain ⟨b₁, hopen, h⟩ := reaches_seq.1 h
    obtain ⟨b₂, hword, h⟩ := reaches_seq.1 h
    obtain ⟨b₃, hclose, h⟩ := reaches_seq.1 h
    obtain rfl := reaches_empty.1 h
    obtain ⟨c, hc, h₁, -⟩ := reaches_char.1 hopen
    obtain ⟨c', hc', h₃, -⟩ := reaches_char.1 hclose
    obtain ⟨hstarts, rfl⟩ := reaches_word.1 hword
    obtain rfl := beq_iff_eq.1 hc
    obtain rfl := beq_iff_eq.1 hc'
    obtain ⟨x, y, u, hrest, hx, hy⟩ := exists_of_startsWord hstarts
    rw [skip_rest, hrest] at h₃
    refine ⟨'{' :: ([x, y] ++ ['}']), ⟨[x, y], rfl, ?_, ?_⟩, ?_⟩
    · simp [hx.symm, hy.symm]
    · rw [hrest] at hstarts
      exact occurs_iff.2 ⟨[], [x, y], rfl, hstarts⟩
    · rw [h₁, hrest]
      exact congrArg (fun s ↦ '{' :: x :: y :: s) h₃
  · obtain ⟨b₁, hopen, h⟩ := reaches_seq.1 h
    obtain ⟨b₂, hmany, h⟩ := reaches_seq.1 h
    obtain ⟨b₃, hword, h⟩ := reaches_seq.1 h
    obtain ⟨b₄, hmany', h⟩ := reaches_seq.1 h
    obtain ⟨b₅, hclose, h⟩ := reaches_seq.1 h
    obtain rfl := reaches_empty.1 h
    obtain ⟨c, hc, h₁, -⟩ := reaches_char.1 hopen
    obtain ⟨s, hs, h₂⟩ := rest_of_reaches_many hmany
    obtain ⟨hstarts, rfl⟩ := reaches_word.1 hword
    obtain ⟨s', hs', h₄⟩ := rest_of_reaches_many hmany'
    obtain ⟨c', hc', h₅, -⟩ := reaches_char.1 hclose
    obtain rfl := beq_iff_eq.1 hc
    obtain rfl := beq_iff_eq.1 hc'
    obtain ⟨x, y, u, hrest, hx, hy⟩ := exists_of_startsWord hstarts
    rw [skip_rest, hrest] at h₄
    replace h₄ : u = s' ++ b₄.rest := h₄
    refine ⟨'{' :: ((s ++ ([x, y] ++ s')) ++ ['}']), ⟨s ++ ([x, y] ++ s'), rfl, ?_, ?_⟩, ?_⟩
    · simp only [List.mem_append, not_or]
      refine ⟨not_mem_of_all hs, ?_, not_mem_of_all hs'⟩
      simp [hx.symm, hy.symm]
    · rw [hrest] at hstarts
      exact occurs_iff.2 ⟨s, [x, y] ++ s', rfl, hstarts⟩
    · rw [h₁, h₂, hrest, h₄, h₅]
      simp only [List.cons_append, List.append_assoc, List.nil_append]

open Regex in
theorem reaches_of_placeholder {m : Text} (h : Placeholder m) (before : Option Char) (t : Text) :
    ∃ b, Reaches pathId ⟨before, m ++ t⟩ b := by
  obtain ⟨body, rfl, hclose, hword⟩ := h
  obtain ⟨s, u, rfl, hstarts⟩ := occurs_iff.1 hword
  obtain ⟨x, y, u, rfl, hx, hy⟩ := exists_of_startsWord hstarts
  have hall : ∀ {v : Text}, '}' ∉ v → ∀ c ∈ v, (c != '}') = true := by
    intro v hv c hc
    rw [bne_iff_ne]
    rintro rfl
    exact hv hc
  have hs : '}' ∉ s := fun hmem ↦ hclose (List.mem_append_left _ hmem)
  have hu : '}' ∉ u := fun hmem ↦
    hclose (List.mem_append_right _ (List.mem_cons_of_mem _ (List.mem_cons_of_mem _ hmem)))
  have hopen : Reaches (.char (· == '{')) ⟨before, '{' :: ((s ++ x :: y :: u) ++ ['}']) ++ t⟩
      ⟨some '{', (s ++ x :: y :: u) ++ ['}'] ++ t⟩ := reaches_char.2 ⟨'{', rfl, rfl, rfl⟩
  obtain ⟨b₂, hmany, h₂⟩ := reaches_many (a := ⟨some '{', (s ++ x :: y :: u) ++ ['}'] ++ t⟩)
    (t := (x :: y :: u) ++ ('}' :: t)) true
    (by simp only [List.append_assoc, List.cons_append, List.nil_append]) (hall hs)
  have hword' : Reaches (.word "id".toList) b₂ (Place.skip b₂ 2) :=
    reaches_word.2 ⟨by rw [h₂]; exact startsWord_append hstarts, rfl⟩
  have h₃ : (Place.skip b₂ 2).rest = u ++ '}' :: t := by
    rw [skip_rest, h₂]
    rfl
  obtain ⟨b₄, hmany', h₄⟩ := reaches_many (p := (· != '}')) true h₃ (hall hu)
  have hclose' : Reaches (.char (· == '}')) b₄ ⟨some '}', t⟩ := reaches_char.2 ⟨'}', rfl, h₄, rfl⟩
  exact ⟨_, reaches_alt.2 (.inr (reaches_seq.2 ⟨_, hopen, reaches_seq.2 ⟨_, hmany, reaches_seq.2 ⟨_, hword',
    reaches_seq.2 ⟨_, hmany', reaches_seq.2 ⟨_, hclose', reaches_empty.2 rfl⟩⟩⟩⟩⟩))⟩

/-- A placeholder ends at the first closing brace. -/
theorem Placeholder.eq_of_close {m rest y t : Text} (h : Placeholder m) (hy : '}' ∉ y)
    (heq : '{' :: (y ++ '}' :: t) = m ++ rest) : m = '{' :: (y ++ ['}']) ∧ rest = t := by
  obtain ⟨body, rfl, hbody, -⟩ := h
  have hcount : y.count '}' = body.count '}' := by rw [List.count_eq_zero.2 hy, List.count_eq_zero.2 hbody]
  have hsplit : y ++ '}' :: t = body ++ '}' :: rest := by
    simpa only [List.cons_append, List.append_assoc, List.nil_append, List.cons.injEq, true_and] using heq
  obtain ⟨rfl, rfl⟩ := Regex.append_close_inj hcount hsplit
  exact ⟨rfl, rfl⟩

/-- Two placeholders in front of one text are the same. -/
theorem Placeholder.eq_of_append {m m' t t' : Text} (h : Placeholder m) (h' : Placeholder m')
    (heq : m ++ t = m' ++ t') : m = m' ∧ t = t' := by
  obtain ⟨body, rfl, hbody, -⟩ := h
  have hclose : '{' :: (body ++ '}' :: t) = m' ++ t' := by
    rw [← heq, List.cons_append, List.append_assoc]
    rfl
  obtain ⟨rfl, rfl⟩ := h'.eq_of_close hbody hclose
  exact ⟨rfl, rfl⟩

theorem exists_first_of_placeholder {m : Text} (h : Placeholder m) (before : Option Char) (t : Text) :
    ∃ x, Regex.first pathId ⟨before, m ++ t⟩ = some x ∧ x.2.rest = t := by
  cases hx : Regex.first pathId ⟨before, m ++ t⟩ with
  | none =>
    obtain ⟨b, hb⟩ := reaches_of_placeholder h before t
    exact absurd hb (Regex.first_eq_none_iff.1 hx b)
  | some x =>
    obtain ⟨m', hm', heq⟩ := placeholder_of_reaches (Regex.reaches_of_first hx)
    exact ⟨x, rfl, (h.eq_of_append hm' heq).2.symm⟩

theorem first_pathId_eq_none_iff {before : Option Char} {t : Text} :
    Regex.first pathId ⟨before, t⟩ = none ↔ ∀ m rest, Placeholder m → t ≠ m ++ rest := by
  constructor
  · rintro hnone m rest hm rfl
    obtain ⟨x, hx, -⟩ := exists_first_of_placeholder hm before rest
    rw [hnone] at hx
    cases hx
  · intro h
    rw [Regex.first_eq_none_iff]
    intro b hb
    obtain ⟨m, hm, heq⟩ := placeholder_of_reaches hb
    exact h m b.rest hm heq

theorem pathId_delimited : Regex.Delimited pathId '}' where
  unanchored before before' t := by
    cases hx : Regex.first pathId ⟨before, t⟩ with
    | none =>
      have hnone : Regex.first pathId ⟨before', t⟩ = none :=
        first_pathId_eq_none_iff.2 (first_pathId_eq_none_iff.1 hx)
      rw [hnone]
    | some x =>
      obtain ⟨m, hm, heq⟩ := placeholder_of_reaches (Regex.reaches_of_first hx)
      replace heq : t = m ++ x.2.rest := heq
      obtain ⟨y, hy, hrest⟩ := exists_first_of_placeholder hm before' x.2.rest
      rw [heq, hy]
      exact congrArg some hrest.symm
  closes {a x} h := by
    obtain ⟨m, ⟨body, rfl, hbody, -⟩, heq⟩ := placeholder_of_reaches (Regex.reaches_of_first h)
    refine ⟨'{' :: body, ?_, ?_⟩
    · rw [heq]
      simp only [List.cons_append, List.append_assoc, List.nil_append]
    · rw [List.mem_cons, not_or]
      exact ⟨by decide, hbody⟩

theorem Placeholder.isMatch {m : Text} (h : Placeholder m) (t : Text) : Regex.IsMatch pathId m t :=
  exists_first_of_placeholder h none t

theorem placeholder_of_isMatch {m t : Text} (h : Regex.IsMatch pathId m t) : Placeholder m := by
  obtain ⟨x, hx, rfl⟩ := h
  obtain ⟨m', hm', heq⟩ := placeholder_of_reaches (Regex.reaches_of_first hx)
  rwa [List.append_cancel_right heq]

theorem placeholder_of_mem_matched {m t : Text} (h : m ∈ Regex.matched pathId t) : Placeholder m := by
  induction hn : t.length using Nat.strong_induction_on generalizing t with
  | _ n ih =>
    subst hn
    rcases Regex.scan_cases pathId t with hnone | ⟨g, p, u, rfl, hp, hg⟩
    · rw [Regex.matched_eq_nil pathId_delimited hnone] at h
      cases h
    · rw [Regex.matched_append pathId_delimited hg, Regex.matched_match pathId_delimited hp] at h
      rcases List.mem_cons.1 h with rfl | h
      · exact placeholder_of_isMatch hp
      · refine ih u.length ?_ h rfl
        have hpos := List.length_pos_iff.2 (hp.ne_nil pathId_delimited)
        simp only [List.length_append]
        omega

/-- A text has no placeholder just if it has no match. -/
theorem matched_eq_nil_iff {t : Text} :
    Regex.matched pathId t = [] ↔ ∀ u, u ≠ [] → u <:+ t → Regex.first pathId ⟨none, u⟩ = none := by
  refine ⟨fun h ↦ ?_, Regex.matched_eq_nil pathId_delimited⟩
  rcases Regex.scan_cases pathId t with hnone | ⟨g, m, u, rfl, hm, hg⟩
  · exact hnone
  · rw [Regex.matched_append pathId_delimited hg, Regex.matched_match pathId_delimited hm] at h
    cases h

theorem first_eq_none_of_not_mem {v : Text} (hv : v ≠ []) (h : '{' ∉ v) (t : Text) :
    Regex.first pathId ⟨none, v ++ t⟩ = none := by
  obtain ⟨c, v, rfl⟩ := List.exists_cons_of_ne_nil hv
  refine first_pathId_eq_none_iff.2 fun m rest hm heq ↦ ?_
  obtain ⟨w, rfl⟩ := hm.head_eq
  obtain ⟨rfl, -⟩ := List.cons.inj heq
  exact h List.mem_cons_self

/-- Replacing keeps a delimiter in front. -/
theorem head_substitute (fs : List Regex.Filling) {t : Text} (ht : ∀ c ∈ t.head?, Url.isSegmentChar c = false) :
    (Regex.substitute pathId fs t).head? = t.head? := by
  cases t with
  | nil => rfl
  | cons c t =>
    have hnone : ∀ v, v ≠ [] → v <:+ [c] → Regex.first pathId ⟨none, v ++ t⟩ = none := by
      intro v hv hsuffix
      refine first_eq_none_of_not_mem hv (fun hmem ↦ ?_) t
      obtain rfl := List.mem_singleton.1 (hsuffix.subset hmem)
      exact absurd (ht '{' rfl) (by decide)
    have happend := Regex.substitute_append pathId_delimited fs hnone
    exact (congrArg List.head? happend).trans rfl

theorem searchFrom_pathId (before : Option Char) (t : Text) :
    (Regex.searchFrom pathId before t).isSome = true ↔ Regex.matched pathId t ≠ [] := by
  have hnil : Regex.first pathId ⟨none, []⟩ = none := by
    refine first_pathId_eq_none_iff.2 fun m rest hm hempty ↦ ?_
    obtain ⟨u, rfl⟩ := hm.head_eq
    cases hempty
  rw [Option.isSome_iff_ne_none, Ne, Ne, matched_eq_nil_iff,
    Regex.searchFrom_eq_none_iff pathId_delimited.unanchored, not_iff_not]
  refine ⟨fun h u _ hu ↦ h u hu, fun h u hu ↦ ?_⟩
  rcases eq_or_ne u [] with rfl | hne
  · exact hnil
  · exact h u hne hu

/-! ### The last segment -/

open Regex in
theorem rest_of_reaches_lastSegment {a b : Place} (h : Reaches lastSegment a b) :
    ∃ v, '/' ∉ v ∧ a.rest = '/' :: (v ++ b.rest) ∧ (b.rest = [] ∨ b.rest = ['\n']) := by
  obtain ⟨b₁, hslash, h⟩ := reaches_seq.1 h
  obtain ⟨b₂, hmany, h⟩ := reaches_seq.1 h
  obtain ⟨b₃, hlast, h⟩ := reaches_seq.1 h
  obtain rfl := reaches_empty.1 h
  obtain ⟨rfl, hend⟩ := reaches_last.1 hlast
  obtain ⟨c, hc, h₁, -⟩ := reaches_char.1 hslash
  obtain ⟨v, hv, h₂⟩ := rest_of_reaches_many hmany
  obtain rfl := beq_iff_eq.1 hc
  refine ⟨v, fun hmem ↦ ?_, by rw [h₁, h₂], hend⟩
  cases hv '/' hmem

open Regex in
/-- The last segment, in a text of one line. -/
theorem substitute_lastSegment (fs : List Filling) {s l : Text} (hl : '/' ∉ l) (hline : '\n' ∉ l) :
    substitute lastSegment fs (s ++ '/' :: l) = s ++ fill ('/' :: l) fs := by
  have hnone : ∀ b u, u ≠ [] → u <:+ s → b.rest = u ++ '/' :: l → first lastSegment b = none := by
    intro b u hu _ hrest
    rw [first_eq_none_iff]
    intro b' hb'
    obtain ⟨v, hv, heq, hend⟩ := rest_of_reaches_lastSegment hb'
    obtain ⟨c, u, rfl⟩ := List.exists_cons_of_ne_nil hu
    rw [hrest] at heq
    obtain ⟨-, heq⟩ := List.cons.inj heq
    have hmem : '/' ∈ v ++ b'.rest := by
      rw [← show u ++ '/' :: l = v ++ b'.rest from heq]
      exact List.mem_append_right u List.mem_cons_self
    rcases List.mem_append.1 hmem with hmem | hmem
    · exact hv hmem
    · rcases hend with hend | hend
      · rw [hend] at hmem
        cases hmem
      · rw [hend, List.mem_singleton] at hmem
        cases hmem
  have hfirst : ∀ before, ∃ x, first lastSegment ⟨before, ('/' :: l) ++ []⟩ = some x ∧ x.2.rest = [] := by
    intro before
    cases hx : first lastSegment ⟨before, ('/' :: l) ++ []⟩ with
    | none =>
      have hslash : Reaches (.char (· == '/')) ⟨before, ('/' :: l) ++ []⟩ ⟨some '/', l ++ []⟩ :=
        reaches_char.2 ⟨'/', rfl, rfl, rfl⟩
      have hall : ∀ c ∈ l, (c != '/') = true := by
        intro c hc
        rw [bne_iff_ne]
        rintro rfl
        exact hl hc
      obtain ⟨b, hmany, hb⟩ := reaches_many (a := ⟨some '/', l ++ []⟩) (t := []) true rfl hall
      exact absurd (reaches_seq.2 ⟨_, hslash, reaches_seq.2 ⟨_, hmany, reaches_seq.2
        ⟨_, reaches_last.2 ⟨rfl, .inl hb⟩, reaches_empty.2 rfl⟩⟩⟩) (first_eq_none_iff.1 hx b)
    | some x =>
      refine ⟨x, rfl, ?_⟩
      obtain ⟨v, -, heq, hend⟩ := rest_of_reaches_lastSegment (reaches_of_first hx)
      rcases hend with hend | hend
      · exact hend
      · rw [List.append_nil, hend] at heq
        obtain ⟨-, heq⟩ := List.cons.inj heq
        rw [heq] at hline
        exact absurd (List.mem_append_right v List.mem_cons_self) hline
  obtain ⟨before, hs⟩ := substituteFrom_of_none fs none hnone
  obtain ⟨x, hx, hrest⟩ := hfirst before
  obtain ⟨before', hsub⟩ := substituteFrom_of_first fs before (List.cons_ne_nil '/' l) hx hrest
  rw [List.append_nil] at hsub
  rw [substitute, hs, hsub]
  exact congrArg _ (List.append_nil _)

theorem exists_last_slash {t : Text} (h : '/' ∈ t) : ∃ q l, t = q ++ '/' :: l ∧ '/' ∉ l := by
  obtain ⟨a, b, hab, ha⟩ := List.eq_append_cons_of_mem (List.mem_reverse.2 h)
  refine ⟨b.reverse, a.reverse, ?_, fun hmem ↦ ha (List.mem_reverse.1 hmem)⟩
  rw [← List.reverse_reverse t, hab, List.reverse_append, List.reverse_cons, List.append_assoc]
  rfl

theorem eq_of_suffix {l l' : Text} (h : '/' :: l <:+ '/' :: l') (hl' : '/' ∉ l') : l = l' := by
  rcases List.suffix_cons_iff.1 h with heq | hsuffix
  · exact (List.cons.inj heq).2
  · exact absurd (hsuffix.subset List.mem_cons_self) hl'

/-- What is behind the last slash is one text. -/
theorem eq_of_last_slash {t l l' : Text} (h : '/' :: l <:+ t) (h' : '/' :: l' <:+ t) (hl : '/' ∉ l)
    (hl' : '/' ∉ l') : l = l' := by
  rcases List.suffix_or_suffix_of_suffix h h' with hsuffix | hsuffix
  · exact eq_of_suffix hsuffix hl'
  · exact (eq_of_suffix hsuffix hl).symm

/-! ### Building the request -/

section

variable [UnicodeTables] [lib : StandardLibrary] [Regex.GroupNames] {ctx : CheckContext} {obj target : Text}

omit lib [UnicodeTables] in
theorem template_cons_slash {fs : List Regex.Filling} (h : Regex.template obj = some fs) :
    Regex.template ('/' :: obj) = some (.text ['/'] :: fs) := by
  rw [Regex.template, Regex.templateFrom, if_neg (by decide)]
  show (Regex.template obj).map _ = _
  rw [h]
  rfl

omit lib [UnicodeTables] in
theorem exists_template_cons {fs : List Regex.Filling} (h : Regex.template ('/' :: obj) = some fs) :
    ∃ fs', Regex.template obj = some fs' ∧ fs = .text ['/'] :: fs' := by
  rw [Regex.template, Regex.templateFrom, if_neg (by decide)] at h
  obtain ⟨fs', hfs', rfl⟩ := Option.map_eq_some_iff.1 h
  exact ⟨fs', hfs', rfl⟩

omit lib [UnicodeTables] in
/-- A request whose URL comes from a substitution. -/
theorem substituted_iff {x : Except Raised Text} {r : Regex} {replacement url : Text}
    (hx : x.toOption = r.sub replacement url) :
    (x.bind fun t ↦ .ok (t, ([] : Overrides))) = .ok (target, []) ↔
      ∃ fs, Regex.template replacement = some fs ∧ target = r.substitute fs url := by
  rw [Regex.sub] at hx
  cases hfs : Regex.template replacement with
  | none =>
    rw [hfs] at hx
    cases x with
    | error e =>
      constructor
      · intro h
        cases h
      · rintro ⟨fs, hsome, -⟩
        cases hsome
    | ok t => cases hx
  | some fs =>
    rw [hfs] at hx
    cases x with
    | error e => cases hx
    | ok t =>
      obtain rfl : t = r.substitute fs url := Option.some.inj hx
      constructor
      · intro h
        exact ⟨fs, rfl, (Prod.mk.inj (Except.ok.inj h)).1.symm⟩
      · rintro ⟨fs', hsome, rfl⟩
        obtain rfl := Option.some.inj hsome
        rfl

/-- With placeholders in the URL, all of them are replaced. -/
theorem build_target_of_matched (hlib : PathPatterns) (hurl : Regex.matched pathId ctx.endpoint.url ≠ []) :
    _build_target ctx obj = .ok (target, []) ↔
      ∃ fs, Regex.template obj = some fs ∧ target = pathId.substitute fs ctx.endpoint.url := by
  have hsearch : lib.search _PATH_ID ctx.endpoint.url = true := by
    rw [hlib.search]
    exact (searchFrom_pathId none _).2 hurl
  rw [← substituted_iff (hlib.sub obj ctx.endpoint.url)]
  show (if lib.search _PATH_ID ctx.endpoint.url = true then _ else _) = _ ↔ _
  rw [if_pos hsearch]
  exact Iff.rfl

/-- With a placeholder in the template only, the last segment of the URL is replaced. -/
theorem build_target_of_template (hlib : PathPatterns) (hurl : Regex.matched pathId ctx.endpoint.url = [])
    (htemplate : Regex.matched pathId ctx.endpoint.path_template ≠ []) :
    _build_target ctx obj = .ok (target, []) ↔
      ∃ fs, Regex.template ('/' :: obj) = some fs ∧ target = lastSegment.substitute fs ctx.endpoint.url := by
  have hsearch : ¬lib.search _PATH_ID ctx.endpoint.url = true := by
    rw [hlib.search]
    exact fun h ↦ (searchFrom_pathId none _).1 h hurl
  have hsearch' : lib.search _PATH_ID ctx.endpoint.path_template = true := by
    rw [hlib.search]
    exact (searchFrom_pathId none _).2 htemplate
  rw [← substituted_iff (hlib.sub_last ('/' :: obj) ctx.endpoint.url)]
  show (if lib.search _PATH_ID ctx.endpoint.url = true then _ else
    if lib.search _PATH_ID ctx.endpoint.path_template = true then _ else _) = _ ↔ _
  rw [if_neg hsearch, if_pos hsearch']
  exact Iff.rfl

end

/-! ### Templates -/

/-- A placeholder that is the only match stands where it is found. -/
theorem first_eq_none_of_matched {p s t : Text} (hp : Placeholder p)
    (h : Regex.matched pathId (s ++ (p ++ t)) = [p]) {u : Text} (hu : u ≠ []) (hsuffix : u <:+ s) :
    Regex.first pathId ⟨none, u ++ (p ++ t)⟩ = none := by
  have hsome : ∀ rest, Regex.first pathId ⟨none, p ++ rest⟩ ≠ none := fun rest hnone ↦
    first_pathId_eq_none_iff.1 hnone p rest hp rfl
  have hne : ∀ {rest}, p ++ rest ≠ [] := by
    obtain ⟨x, rfl⟩ := hp.head_eq
    exact List.cons_ne_nil _ _
  rcases Regex.scan_cases pathId (s ++ (p ++ t)) with hnone | ⟨g, m, v, heq, hm, hg⟩
  · exact absurd (hnone _ hne (List.suffix_append s _)) (hsome t)
  rw [heq, Regex.matched_append pathId_delimited hg, Regex.matched_match pathId_delimited hm] at h
  obtain ⟨rfl, hv⟩ := List.cons.inj h
  suffices hgs : g = s by
    subst hgs
    rw [List.append_cancel_left heq]
    exact hg u hu hsuffix
  rcases List.append_eq_append_iff.1 heq with ⟨y, hgy, hrest⟩ | ⟨y, hsy, hrest⟩
  · rcases eq_or_ne y [] with rfl | hy
    · rw [hgy, List.append_nil]
    · have hnone := hg y hy (hgy ▸ List.suffix_append s y)
      rw [← hrest] at hnone
      exact absurd hnone (hsome t)
  · rcases eq_or_ne y [] with rfl | hy
    · rw [hsy, List.append_nil]
    · rcases List.append_eq_append_iff.1 hrest with ⟨z, hyz, hz⟩ | ⟨z, hpz, hz⟩
      · -- the placeholder would be found behind the match
        have hnone := matched_eq_nil_iff.1 hv (m ++ t) hne (hz ▸ List.suffix_append z _)
        exact absurd hnone (hsome t)
      · rcases List.eq_nil_or_concat' z with rfl | ⟨z, c, rfl⟩
        · have hnone := matched_eq_nil_iff.1 hv (m ++ t) hne (hz ▸ List.suffix_rfl)
          exact absurd hnone (hsome t)
        · -- both texts end at the first closing brace
          obtain ⟨body, rfl, hbody, -⟩ := hp
          have hsplit : ('{' :: body) ++ ['}'] = (y ++ z) ++ [c] := by
            rw [List.append_assoc]
            exact hpz
          obtain ⟨hbodies, hc⟩ := List.append_inj' hsplit rfl
          obtain rfl := List.singleton_inj.1 hc
          have hopen : '}' ∉ '{' :: body := by
            rw [List.mem_cons, not_or]
            exact ⟨by decide, hbody⟩
          have hz' : '}' ∉ z := fun hmem ↦ hopen (hbodies ▸ List.mem_append_right y hmem)
          have heq' : ('{' :: body) ++ '}' :: t = z ++ '}' :: v := by
            simpa only [List.cons_append, List.append_assoc, List.nil_append] using hz
          have hcount : ('{' :: body).count '}' = z.count '}' := by
            rw [List.count_eq_zero.2 hopen, List.count_eq_zero.2 hz']
          have hsame := (Regex.append_close_inj hcount heq').1
          rw [hsame] at hbodies
          exact absurd (List.append_left_eq_self.1 hbodies.symm) hy

/-- A character of a path that is no slash is in one of its segments. -/
theorem exists_segment {c : Char} (hc : c ≠ '/') {front : List Text} {a t : Text}
    (h : Url.pathOf front ++ ['/'] = a ++ c :: t) :
    ∃ f₁ s₁ x f₂, front = f₁ ++ (s₁ ++ c :: x) :: f₂ ∧ t = x ++ (Url.pathOf f₂ ++ ['/']) := by
  induction front generalizing a with
  | nil =>
    cases a with
    | nil => exact absurd (List.cons.inj h).1.symm hc
    | cons d a => exact absurd (List.cons.inj h).2 (by simp)
  | cons s front ih =>
    cases a with
    | nil => exact absurd (List.cons.inj h).1.symm hc
    | cons d a =>
      have htail : s ++ (Url.pathOf front ++ ['/']) = a ++ c :: t := by
        rw [← List.append_assoc]
        exact (List.cons.inj h).2
      have hlater : ∀ b, Url.pathOf front ++ ['/'] = b ++ c :: t →
          ∃ f₁ s₁ x f₂, s :: front = f₁ ++ (s₁ ++ c :: x) :: f₂ ∧ t = x ++ (Url.pathOf f₂ ++ ['/']) := by
        intro b hb
        obtain ⟨f₁, s₁, x, f₂, rfl, ht⟩ := ih hb
        exact ⟨s :: f₁, s₁, x, f₂, rfl, ht⟩
      rcases List.append_eq_append_iff.1 htail with ⟨y, -, hrest⟩ | ⟨y, hs, hrest⟩
      · exact hlater y hrest
      · cases y with
        | nil => exact hlater [] hrest.symm
        | cons d x =>
          obtain ⟨rfl, ht⟩ := List.cons.inj hrest
          exact ⟨[], a, x, front, by rw [hs]; rfl, ht⟩

theorem isAlphanum_of_hex {c : Char}
    (h : (Text.isDigit c || ('a' ≤ c && c ≤ 'f') || ('A' ≤ c && c ≤ 'F')) = true) : c.isAlphanum = true := by
  simp only [Bool.or_eq_true, Bool.and_eq_true, decide_eq_true_eq] at h
  rcases h with (hdigit | ⟨hlo, hhi⟩) | ⟨hlo, hhi⟩
  · have hdigit' : c.isDigit = true := hdigit
    rw [Char.isAlphanum, hdigit', Bool.or_true]
  · have hlower : c.isLower = true :=
      Bool.and_eq_true_iff.2 ⟨decide_eq_true hlo, decide_eq_true (hhi.trans (by decide : 'f' ≤ 'z'))⟩
    show ((c.isUpper || c.isLower) || c.isDigit) = true
    rw [hlower, Bool.or_true, Bool.true_or]
  · have hupper : c.isUpper = true := decide_eq_true ⟨hlo, hhi.trans (by decide : 'F' ≤ 'Z')⟩
    show ((c.isUpper || c.isLower) || c.isDigit) = true
    rw [hupper, Bool.true_or, Bool.true_or]

section

variable [d : DigitTables]

/-- A segment of a template. -/
def templateSegment (seg : Text) : Text := if Discovery.isIdSegment seg then "\x7bid\x7d".toList else seg

theorem templatize_path_pathOf {segs : List Text} (hne : segs ≠ []) (hsegs : ∀ s ∈ segs, '/' ∉ s) :
    Discovery.templatize_path (Url.pathOf segs) = Url.pathOf (segs.map templateSegment) := by
  obtain ⟨s, l, rfl⟩ := List.exists_cons_of_ne_nil hne
  have hjoin : Json.joinWith ['/'] ((Text.split '/' (Url.pathOf (s :: l))).map templateSegment) =
      Url.pathOf ((s :: l).map templateSegment) := by
    rw [Url.split_pathOf hsegs, List.map_cons]
    exact Url.joinWith_cons _ _
  have hsome : Url.pathOf ((s :: l).map templateSegment) ≠ [] := List.cons_ne_nil _ _
  show (if Json.joinWith ['/'] ((Text.split '/' (Url.pathOf (s :: l))).map templateSegment) = [] then _
    else _) = _
  rw [hjoin, if_neg hsome]
  exact hjoin

/-- A placeholder that begins in a path begins in its template too. -/
theorem exists_placeholder_template {z z' : Text}
    (hz' : ∀ y, '}' ∉ y → ∃ m rest, Placeholder m ∧ '{' :: (y ++ z') = m ++ rest) {x m rest : Text} (hx : '}' ∉ x)
    (l : List Text) (hm : Placeholder m) (heq : '{' :: (x ++ (Url.pathOf l ++ z)) = m ++ rest) :
    ∃ m' rest', Placeholder m' ∧ '{' :: (x ++ (Url.pathOf (l.map templateSegment) ++ z')) = m' ++ rest' := by
  induction l generalizing x with
  | nil => exact hz' x hx
  | cons s l ih =>
    have hcons : ∀ (s : Text) (l : List Text) (z : Text),
        x ++ (Url.pathOf (s :: l) ++ z) = (x ++ '/' :: s) ++ (Url.pathOf l ++ z) := by
      intro s l z
      simp only [Url.pathOf_cons, List.append_assoc, List.cons_append]
    have hslash : '}' ∉ x ++ ['/'] := by
      rw [List.mem_append, not_or]
      exact ⟨hx, by decide⟩
    rw [List.map_cons, hcons, templateSegment]
    by_cases hid : Discovery.isIdSegment s = true
    · -- the template has a placeholder here
      rw [if_pos hid]
      refine ⟨'{' :: ((x ++ "/\x7bid".toList) ++ ['}']), Url.pathOf (l.map templateSegment) ++ z',
        ⟨_, rfl, ?_, occurs_iff.2 ⟨x ++ "/\x7b".toList, "id".toList, ?_, by decide⟩⟩, ?_⟩
      · rw [List.mem_append, not_or]
        exact ⟨hx, by decide⟩
      · rw [List.append_assoc]
        rfl
      · simp only [List.append_assoc, List.cons_append]
        rfl
    · rw [if_neg hid]
      by_cases hclose : '}' ∈ s
      · -- the placeholder ends in this segment
        obtain ⟨s₁, s₂, rfl, hs₁⟩ := List.eq_append_cons_of_mem hclose
        have hbody : '}' ∉ x ++ '/' :: s₁ := by
          rw [List.mem_append, List.mem_cons, not_or, not_or]
          exact ⟨hx, by decide, hs₁⟩
        have hend : ∀ t : Text, x ++ '/' :: (s₁ ++ '}' :: s₂) ++ t = (x ++ '/' :: s₁) ++ '}' :: (s₂ ++ t) := by
          intro t
          simp only [List.append_assoc, List.cons_append]
        rw [hcons, hend] at heq
        obtain ⟨hm', -⟩ := hm.eq_of_close hbody heq
        refine ⟨m, s₂ ++ (Url.pathOf (l.map templateSegment) ++ z'), hm, ?_⟩
        rw [hend, hm']
        simp only [List.append_assoc, List.cons_append, List.nil_append]
      · refine ih ?_ ?_
        · rw [List.mem_append, List.mem_cons, not_or, not_or]
          exact ⟨hx, by decide, hclose⟩
        · rw [← hcons]
          exact heq

/-- What is assumed of the digit table: in ASCII, the digits are those of ASCII. -/
class LawfulDigitTables : Prop where
  isDecimal_ascii : ∀ {c : Char}, c.toNat < 128 → d.isDecimal c = Text.isDigit c

variable [LawfulDigitTables]

/-- An identifier has no characters of ASCII but letters, digits and hyphens. -/
theorem isAlphanum_of_isIdSegment {seg : Text} (h : Discovery.isIdSegment seg = true) {c : Char} (hc : c ∈ seg)
    (hascii : c.toNat < 128) : (c.isAlphanum || c == '-') = true := by
  rw [Discovery.isIdSegment, Bool.or_eq_true, Bool.or_eq_true, Bool.and_eq_true, Bool.and_eq_true,
    Bool.and_eq_true] at h
  rcases h with (⟨-, hall⟩ | ⟨-, hall⟩) | ⟨-, hall⟩
  · have hdigit := List.all_eq_true.1 hall c hc
    rw [LawfulDigitTables.isDecimal_ascii hascii] at hdigit
    rw [isAlphanum_of_hex (by rw [hdigit, Bool.true_or, Bool.true_or]), Bool.true_or]
  · rw [isAlphanum_of_hex (List.all_eq_true.1 hall c hc), Bool.true_or]
  · rcases Bool.or_eq_true_iff.1 (List.all_eq_true.1 hall c hc) with hhex | hhyphen
    · rw [isAlphanum_of_hex (by rw [hhex, Bool.true_or]), Bool.true_or]
    · rw [hhyphen, Bool.or_true]

theorem not_mem_of_isIdSegment {seg : Text} (h : Discovery.isIdSegment seg = true) {c : Char}
    (hascii : c.toNat < 128) (hc : (c.isAlphanum || c == '-') = false) : c ∉ seg := by
  intro hmem
  rw [isAlphanum_of_isIdSegment h hmem hascii] at hc
  cases hc

/-! ### Where the identifier is -/

variable [u : UnicodeTables] {U : Url.UrlText} {front back : List Text} {seg : Text}

/-- The URL up to the segment. -/
def before (U : Url.UrlText) (front : List Text) : Text :=
  U.scheme ++ ':' :: '/' :: '/' :: (U.netloc ++ (Url.pathOf front ++ ['/']))

/-- The URL behind the segment. -/
def behind (U : Url.UrlText) (back : List Text) : Text := Url.pathOf back ++ U.tail

omit d [LawfulDigitTables] in
theorem written_eq (U : Url.UrlText) (front back : List Text) (s : Text) :
    U.written (front ++ s :: back) = before U front ++ (s ++ behind U back) := by
  simp only [Url.UrlText.written, before, behind, Url.pathOf_append, Url.pathOf_cons, List.append_assoc,
    List.cons_append, List.nil_append]

/-- The template has one placeholder, which is the segment at this place. -/
structure OnePlaceholder (front : List Text) (seg : Text) (back : List Text) : Prop where
  placeholder : Placeholder (templateSegment seg)
  only : Regex.matched pathId (Url.pathOf ((front ++ seg :: back).map templateSegment)) = [templateSegment seg]

omit [LawfulDigitTables] u in
/-- With an opening brace anywhere before it, the placeholder of the template is a longer one. -/
theorem OnePlaceholder.exists_longer (hone : OnePlaceholder front seg back) (t : Text) {y : Text} (hy : '}' ∉ y) :
    ∃ m rest, Placeholder m ∧ '{' :: (y ++ '/' :: (templateSegment seg ++ t)) = m ++ rest := by
  obtain ⟨body, hbody, hclose, hid⟩ := hone.placeholder
  obtain ⟨s, w, rfl, hw⟩ := occurs_iff.1 hid
  rw [hbody]
  refine ⟨'{' :: ((y ++ '/' :: '{' :: (s ++ w)) ++ ['}']), t, ⟨_, rfl, ?_, occurs_iff.2
    ⟨y ++ '/' :: '{' :: s, w, ?_, hw⟩⟩, ?_⟩
  · rw [List.mem_append, List.mem_cons, List.mem_cons, not_or, not_or, not_or]
    exact ⟨hy, by decide, by decide, hclose⟩
  · simp only [List.append_assoc, List.cons_append]
  · simp only [List.append_assoc, List.cons_append, List.nil_append]

/-- **In front of the segment** the URL has no placeholder. -/
theorem first_before (hone : OnePlaceholder front seg back) (hhost : '{' ∉ U.netloc) {v : Text} (hv : v ≠ [])
    (hsuffix : v <:+ before U front) (t : Text) :
    Regex.first pathId ⟨none, v ++ t⟩ = none := by
  rw [first_pathId_eq_none_iff]
  intro m rest hm heq
  obtain ⟨v, rfl⟩ : ∃ w, v = '{' :: w := by
    obtain ⟨c, w, rfl⟩ := List.exists_cons_of_ne_nil hv
    obtain ⟨w', rfl⟩ := hm.head_eq
    exact ⟨w, by rw [(List.cons.inj heq).1]⟩
  -- the brace is in a segment of the path
  have hscheme : '{' ∉ U.scheme := Url.not_mem_of_class (by decide) U.scheme_valid.2
  obtain ⟨a, ha⟩ : ∃ a, Url.pathOf front ++ ['/'] = a ++ '{' :: v := by
    obtain ⟨w, hw⟩ := hsuffix
    have hsplit : w ++ '{' :: v =
        (U.scheme ++ ':' :: '/' :: '/' :: U.netloc) ++ (Url.pathOf front ++ ['/']) := by
      rw [hw, before]
      simp only [List.append_assoc, List.cons_append]
    rcases List.append_eq_append_iff.1 hsplit with ⟨a, hhead, hpath⟩ | ⟨a, -, hpath⟩
    · cases a with
      | nil => exact ⟨[], hpath.symm⟩
      | cons c a =>
        obtain ⟨rfl, -⟩ := List.cons.inj hpath
        have hmem : '{' ∈ U.scheme ++ ':' :: '/' :: '/' :: U.netloc := by
          rw [hhead]
          exact List.mem_append_right w List.mem_cons_self
        simp only [List.mem_append, List.mem_cons, hscheme, hhost, or_false, false_or] at hmem
        exact absurd hmem (by decide)
    · exact ⟨a, hpath⟩
  obtain ⟨f₁, s₁, x, f₂, rfl, rfl⟩ := exists_segment (by decide) ha
  have hopen : ¬Discovery.isIdSegment (s₁ ++ '{' :: x) = true := fun hid ↦
    not_mem_of_isIdSegment hid (by decide) (by decide) (List.mem_append_right s₁ List.mem_cons_self)
  -- so the template has one at the same place, in front of its only one
  have hnone := first_eq_none_of_matched (s := Url.pathOf ((f₁ ++ (s₁ ++ '{' :: x) :: f₂).map templateSegment) ++ ['/'])
    (t := Url.pathOf (back.map templateSegment)) hone.placeholder (by
      have honly := hone.only
      simpa only [List.map_append, List.map_cons, Url.pathOf_append, Url.pathOf_cons, List.append_assoc,
        List.cons_append, List.nil_append] using honly)
    (u := '{' :: (x ++ (Url.pathOf (f₂.map templateSegment) ++ ['/']))) (List.cons_ne_nil _ _) (by
      refine ⟨Url.pathOf (f₁.map templateSegment) ++ '/' :: s₁, ?_⟩
      simp only [List.map_append, List.map_cons, Url.pathOf_append, Url.pathOf_cons, List.append_assoc,
        List.cons_append, templateSegment, if_neg hopen])
  rw [first_pathId_eq_none_iff] at hnone
  have hreach : ∃ m' rest', Placeholder m' ∧ '{' :: (x ++ (Url.pathOf (f₂.map templateSegment) ++
      '/' :: (templateSegment seg ++ Url.pathOf (back.map templateSegment)))) = m' ++ rest' := by
    by_cases hclose : '}' ∈ x
    · obtain ⟨x₁, x₂, rfl, hx₁⟩ := List.eq_append_cons_of_mem hclose
      have hend : ∀ w : Text, (x₁ ++ '}' :: x₂) ++ w = x₁ ++ '}' :: (x₂ ++ w) := fun w ↦ by
        rw [List.append_assoc, List.cons_append]
      rw [List.cons_append, List.append_assoc, hend] at heq
      obtain ⟨hm', -⟩ := hm.eq_of_close hx₁ heq
      refine ⟨m, x₂ ++ (Url.pathOf (f₂.map templateSegment) ++
        '/' :: (templateSegment seg ++ Url.pathOf (back.map templateSegment))), hm, ?_⟩
      rw [hend, hm', List.cons_append, List.append_assoc]
      rfl
    · have hurl : '{' :: (x ++ (Url.pathOf f₂ ++ '/' :: t)) = m ++ rest := by
        rw [← heq]
        simp only [List.append_assoc, List.cons_append, List.nil_append]
      exact exists_placeholder_template (fun y hy ↦ hone.exists_longer _ hy) hclose f₂ hm hurl
  obtain ⟨m', rest', hm', heq'⟩ := hreach
  refine hnone m' rest' hm' (Eq.trans ?_ heq')
  simp only [List.append_assoc, List.cons_append, List.nil_append]

omit d [LawfulDigitTables] in
theorem head_behind (U : Url.UrlText) (back : List Text) :
    ∀ c ∈ (behind U back).head?, Url.isSegmentChar c = false :=
  fun c hc ↦ (U.head_rest back c hc).1

omit [LawfulDigitTables] u in
theorem placeholder_or_isIdSegment (hone : OnePlaceholder front seg back) :
    Placeholder seg ∨ Discovery.isIdSegment seg = true := by
  by_cases hid : Discovery.isIdSegment seg = true
  · exact .inr hid
  · have hplaceholder := hone.placeholder
    rw [templateSegment, if_neg hid] at hplaceholder
    exact .inl hplaceholder

omit u in
theorem not_placeholder_of_isIdSegment (hid : Discovery.isIdSegment seg = true) : ¬Placeholder seg := by
  intro h
  obtain ⟨w, rfl⟩ := h.head_eq
  exact not_mem_of_isIdSegment hid (by decide) (by decide) List.mem_cons_self

omit u in
theorem literal_of_isIdSegment (hid : Discovery.isIdSegment seg = true) : Regex.literal seg = true :=
  Regex.literal_of_not_mem (not_mem_of_isIdSegment hid (by decide) (by decide))

/-- Up to an identifier and in it, there is no placeholder. -/
theorem first_before_identifier (hone : OnePlaceholder front seg back) (hhost : '{' ∉ U.netloc)
    (hid : Discovery.isIdSegment seg = true) (t : Text) :
    ∀ v, v ≠ [] → v <:+ before U front ++ seg → Regex.first pathId ⟨none, v ++ t⟩ = none := by
  have hopen : '{' ∉ seg := not_mem_of_isIdSegment hid (by decide) (by decide)
  intro v hv hsuffix
  obtain ⟨w, hw⟩ := hsuffix
  rcases List.append_eq_append_iff.1 hw with ⟨a, ha, rfl⟩ | ⟨a, -, hseg⟩
  · rcases eq_or_ne a [] with rfl | hne
    · exact first_eq_none_of_not_mem hv hopen t
    · rw [List.append_assoc]
      exact first_before hone hhost hne (ha ▸ List.suffix_append w a) _
  · refine first_eq_none_of_not_mem hv (fun hmem ↦ hopen ?_) t
    rw [hseg]
    exact List.mem_append_right a hmem

/-! ### Exchanging the identifier -/

variable [lib : StandardLibrary] [Regex.GroupNames] {ctx : CheckContext} {obj : Text}

/-- The request for an object differs from the endpoint in the identifier: its URL is the endpoint's with the
id as this segment, and is split like the endpoint's but for the segment. -/
structure Exchanges (U : Url.UrlText) (front back : List Text) (ctx : CheckContext) (obj : Text) : Prop where
  target : _build_target ctx obj = .ok (U.written (front ++ obj :: back), [])
  parts : Url.urlsplit (U.written (front ++ obj :: back)) = .ok (U.parts (front ++ obj :: back))
  segments : Text.split '/' (Url.pathOf (front ++ obj :: back)) = [] :: (front ++ obj :: back)

/-- The id is a segment and stands for itself as a replacement. Either the URL has the placeholder, and no
other one behind it that is not the id itself; or it has none, and the identifier is what it ends with. -/
structure Exchangeable (U : Url.UrlText) (front : List Text) (seg : Text) (back : List Text) (obj : Text) :
    Prop where
  segment : obj.all Url.isSegmentChar = true
  literal : Regex.literal obj = true
  place : (Placeholder seg ∧ ∀ m ∈ Regex.matched pathId (behind U back), m = obj) ∨
    (Regex.matched pathId (U.written (front ++ seg :: back)) = [] ∧
      (behind U back = [] ∨ obj = seg ∧ '/' :: obj <:+ U.written (front ++ seg :: back)))

/-- The URL has the placeholder itself. -/
theorem target_of_placeholder (hlib : PathPatterns) (hone : OnePlaceholder front seg back)
    (hhost : '{' ∉ U.netloc) (hurl : ctx.endpoint.url = U.written (front ++ seg :: back))
    (hseg : Placeholder seg) (hobj : obj.all Url.isSegmentChar = true) :
    _build_target ctx obj = .ok (U.written (front ++ obj :: back), []) ↔
      Regex.literal obj = true ∧ ∀ m ∈ Regex.matched pathId (behind U back), m = obj := by
  have hfront : ∀ v, v ≠ [] → v <:+ before U front →
      Regex.first pathId ⟨none, v ++ (seg ++ behind U back)⟩ = none :=
    fun v hv hsuffix ↦ first_before hone hhost hv hsuffix _
  have hmatched : Regex.matched pathId ctx.endpoint.url ≠ [] := by
    rw [hurl, written_eq, Regex.matched_append pathId_delimited hfront,
      Regex.matched_match pathId_delimited (hseg.isMatch _)]
    exact List.cons_ne_nil _ _
  rw [build_target_of_matched hlib hmatched, hurl, written_eq, written_eq]
  constructor
  · rintro ⟨fs, hfs, heq⟩
    rw [Regex.substitute_append pathId_delimited fs hfront,
      Regex.substitute_match pathId_delimited fs (hseg.isMatch _)] at heq
    replace heq := List.append_cancel_left heq
    obtain ⟨y, hfill, hbehind⟩ : ∃ y, Regex.fill seg fs = obj ++ y ∧
        behind U back = y ++ Regex.substitute pathId fs (behind U back) := by
      rcases List.append_eq_append_iff.1 heq with ⟨y, hy, hbehind⟩ | ⟨y, hy, hbehind⟩
      · exact ⟨y, hy, hbehind⟩
      · cases y with
        | nil => exact ⟨[], by rw [hy, List.append_nil, List.append_nil], hbehind.symm⟩
        | cons c y =>
          -- what is left of the id would start with a delimiter
          have hhead := head_substitute fs (head_behind U back)
          rw [hbehind] at hhead
          have hc : Url.isSegmentChar c = true :=
            List.all_eq_true.1 hobj c (hy ▸ List.mem_append_right _ List.mem_cons_self)
          rw [head_behind U back c hhead.symm] at hc
          cases hc
    obtain ⟨w, hw⟩ := hseg.head_eq
    rw [hw] at hfill
    obtain ⟨hliteral, rfl⟩ := Regex.literal_of_fill (by decide) hfs hfill
    obtain ⟨fs', hfs', hconst⟩ := Regex.fill_of_literal hliteral
    obtain rfl : fs = fs' := Option.some.inj (hfs.symm.trans hfs')
    exact ⟨hliteral, Regex.eq_of_mem_matched pathId_delimited hconst hbehind.symm⟩
  · rintro ⟨hliteral, hall⟩
    obtain ⟨fs, hfs, hconst⟩ := Regex.fill_of_literal hliteral
    refine ⟨fs, hfs, ?_⟩
    rw [Regex.substitute_append pathId_delimited fs hfront,
      Regex.substitute_match pathId_delimited fs (hseg.isMatch _), hconst,
      Regex.substitute_of_matched pathId_delimited hconst hall]

/-- The URL has an identifier, and a placeholder behind it: the identifier stays. -/
theorem target_ne_of_identifier (hlib : PathPatterns) (hone : OnePlaceholder front seg back)
    (hhost : '{' ∉ U.netloc) (hurl : ctx.endpoint.url = U.written (front ++ seg :: back))
    (hsegment : seg.all Url.isSegmentChar = true) (hid : Discovery.isIdSegment seg = true)
    (hmatched : Regex.matched pathId ctx.endpoint.url ≠ []) (hobj : obj.all Url.isSegmentChar = true) :
    _build_target ctx obj ≠ .ok (U.written (front ++ obj :: back), []) := by
  have hfront := first_before_identifier (U := U) hone hhost hid (behind U back)
  have hbehind : Regex.matched pathId ctx.endpoint.url = Regex.matched pathId (behind U back) := by
    rw [hurl, written_eq, ← List.append_assoc, Regex.matched_append pathId_delimited hfront]
  rw [Ne, build_target_of_matched hlib hmatched, hurl, written_eq, written_eq,
    ← List.append_assoc (before U front) seg (behind U back)]
  rintro ⟨fs, hfs, heq⟩
  rw [Regex.substitute_append pathId_delimited fs hfront, List.append_assoc] at heq
  replace heq := List.append_cancel_left heq
  -- the id would be the identifier, and replacing would change nothing
  have hhead : ∀ c ∈ (Regex.substitute pathId fs (behind U back)).head?, Url.isSegmentChar c = false := by
    rw [head_substitute fs (head_behind U back)]
    exact head_behind U back
  obtain ⟨rfl, hrest⟩ := Url.segment_inj hobj hsegment (head_behind U back) hhead heq
  obtain ⟨fs', hfs', hconst⟩ := Regex.fill_of_literal (literal_of_isIdSegment hid)
  obtain rfl : fs = fs' := Option.some.inj (hfs.symm.trans hfs')
  have hall := Regex.eq_of_mem_matched pathId_delimited hconst hrest.symm
  obtain ⟨m, hm⟩ := List.exists_mem_of_ne_nil _ (hbehind ▸ hmatched)
  exact not_placeholder_of_isIdSegment hid (hall m hm ▸ placeholder_of_mem_matched hm)

/-- The URL has an identifier and no placeholder: what is behind the last slash is exchanged. -/
theorem target_of_identifier (hlib : PathPatterns)
    (hurl : ctx.endpoint.url = U.written (front ++ seg :: back))
    (htemplate : Regex.matched pathId ctx.endpoint.path_template ≠ [])
    (hvalid : ∀ s ∈ front ++ seg :: back, s.all Url.isSegmentChar = true) (hid : Discovery.isIdSegment seg = true)
    (hmatched : Regex.matched pathId ctx.endpoint.url = []) (hobj : obj.all Url.isSegmentChar = true) :
    _build_target ctx obj = .ok (U.written (front ++ obj :: back), []) ↔
      Regex.literal obj = true ∧
        (behind U back = [] ∨ obj = seg ∧ '/' :: obj <:+ U.written (front ++ seg :: back)) := by
  have hsegment := hvalid seg (List.mem_append_right front List.mem_cons_self)
  have hslash : '/' ∉ seg := Url.not_mem_of_class (by decide) hsegment
  have hslash' : '/' ∉ obj := Url.not_mem_of_class (by decide) hobj
  have hline : '\n' ∉ U.written (front ++ seg :: back) := fun hmem ↦
    absurd (U.isKept_written hvalid '\n' hmem) (by decide)
  rw [build_target_of_template hlib hmatched htemplate, hurl]
  by_cases hbehind : '/' ∈ behind U back
  · -- the last slash is behind the identifier
    obtain ⟨q, l, hq, hl⟩ := exists_last_slash hbehind
    have hlast : U.written (front ++ seg :: back) = (before U front ++ (seg ++ q)) ++ '/' :: l := by
      rw [written_eq, hq]
      simp only [List.append_assoc]
    have hlength : '\n' ∉ l := fun hmem ↦ hline (by
      rw [hlast]
      exact List.mem_append_right _ (List.mem_cons_of_mem _ hmem))
    have hheads : ∀ l' : Text, ∀ c ∈ (q ++ '/' :: l').head?, Url.isSegmentChar c = false := by
      intro l' c hc
      cases q with
      | nil =>
        obtain rfl := Option.some.inj hc
        decide
      | cons x q => exact head_behind U back c (by rw [hq]; exact hc)
    constructor
    · rintro ⟨fs, hfs, heq⟩
      obtain ⟨fs', hfs', rfl⟩ := exists_template_cons hfs
      rw [written_eq, hlast, substitute_lastSegment _ hl hlength, hq] at heq
      have heq' : obj ++ (q ++ '/' :: l) = seg ++ (q ++ '/' :: Regex.fill ('/' :: l) fs') := by
        have := heq
        simp only [List.append_assoc] at this
        exact List.append_cancel_left this
      obtain ⟨rfl, hrest⟩ := Url.segment_inj hobj hsegment (hheads l) (hheads _) heq'
      obtain ⟨fs'', hfs'', hconst⟩ := Regex.fill_of_literal (literal_of_isIdSegment hid)
      obtain rfl : fs' = fs'' := Option.some.inj (hfs'.symm.trans hfs'')
      rw [hconst] at hrest
      obtain rfl := (List.cons.inj (List.append_cancel_left hrest)).2
      exact ⟨literal_of_isIdSegment hid, .inr ⟨rfl, hlast ▸ List.suffix_append _ _⟩⟩
    · rintro ⟨hliteral, hnil | ⟨rfl, hsuffix⟩⟩
      · rw [hnil] at hbehind
        cases hbehind
      · obtain ⟨fs, hfs, hconst⟩ := Regex.fill_of_literal hliteral
        obtain rfl := eq_of_last_slash hsuffix (hlast ▸ List.suffix_append _ _) hslash' hl
        refine ⟨.text ['/'] :: fs, template_cons_slash hfs, ?_⟩
        rw [hlast, substitute_lastSegment _ hl hlength]
        show _ = _ ++ '/' :: Regex.fill _ fs
        rw [hconst]
  · -- the last slash is in front of the identifier
    have hlast : ∀ s : Text, U.written (front ++ s :: back) =
        (U.scheme ++ ':' :: '/' :: '/' :: (U.netloc ++ Url.pathOf front)) ++ '/' :: (s ++ behind U back) := by
      intro s
      rw [written_eq, before]
      simp only [List.append_assoc, List.cons_append, List.nil_append]
    have hl : '/' ∉ seg ++ behind U back := by
      rw [List.mem_append, not_or]
      exact ⟨hslash, hbehind⟩
    have hlength : '\n' ∉ seg ++ behind U back := fun hmem ↦ hline (by
      rw [hlast]
      exact List.mem_append_right _ (List.mem_cons_of_mem _ hmem))
    constructor
    · rintro ⟨fs, hfs, heq⟩
      obtain ⟨fs', hfs', rfl⟩ := exists_template_cons hfs
      rw [hlast, hlast, substitute_lastSegment _ hl hlength] at heq
      have hfill := (List.cons.inj (List.append_cancel_left heq)).2
      obtain ⟨hliteral, hnil⟩ := Regex.literal_of_fill (by decide) hfs' hfill.symm
      exact ⟨hliteral, .inl hnil⟩
    · rintro ⟨hliteral, hend⟩
      have hnil : behind U back = [] := by
        rcases hend with hnil | ⟨rfl, hsuffix⟩
        · exact hnil
        · have heq := eq_of_last_slash hsuffix (hlast obj ▸ List.suffix_append _ _) hslash' hl
          exact List.append_right_eq_self.1 heq.symm
      obtain ⟨fs, hfs, hconst⟩ := Regex.fill_of_literal hliteral
      refine ⟨.text ['/'] :: fs, template_cons_slash hfs, ?_⟩
      rw [hlast, hlast, substitute_lastSegment _ hl hlength]
      show _ = _ ++ '/' :: Regex.fill _ fs
      rw [hconst, hnil, List.append_nil]

/-- **The identifier and nothing else is exchanged** just if the id and the URL are `Exchangeable`. -/
theorem build_target_iff (hlib : PathPatterns) {U : Url.UrlText} {front back : List Text} {seg : Text}
    (hsegments : U.segments = front ++ seg :: back) (hhost : '{' ∉ U.netloc) {ctx : CheckContext}
    (hurl : ctx.endpoint.url = U.text) (htemplate : ctx.endpoint.path_template = Discovery.templatize_path U.path)
    (hplaceholder : Placeholder (templateSegment seg))
    (hone : Regex.matched pathId ctx.endpoint.path_template = [templateSegment seg]) (obj : Text) :
    Exchanges U front back ctx obj ↔ Exchangeable U front seg back obj := by
  have hvalid : ∀ s ∈ front ++ seg :: back, s.all Url.isSegmentChar = true := hsegments ▸ U.segments_valid
  have hsome : Regex.matched pathId ctx.endpoint.path_template ≠ [] := by
    rw [hone]
    exact List.cons_ne_nil _ _
  have hone' : OnePlaceholder front seg back := by
    refine ⟨hplaceholder, ?_⟩
    rw [htemplate, Url.UrlText.path, hsegments, templatize_path_pathOf (by simp)
      fun s hs ↦ Url.not_mem_of_class (by decide) (hvalid s hs)] at hone
    exact hone
  rw [Url.UrlText.text, hsegments] at hurl
  constructor
  · rintro ⟨htarget, hparts, hsplit⟩
    have hobj : obj.all Url.isSegmentChar = true := by
      obtain ⟨hquery, hfragment, hkept⟩ := Url.path_of_urlsplit hparts
      refine List.all_eq_true.2 fun c hc ↦ ?_
      have hpath : c ∈ Url.pathOf (front ++ obj :: back) :=
        List.mem_flatMap.2 ⟨obj, List.mem_append_right front List.mem_cons_self, List.mem_cons_of_mem _ hc⟩
      have hslash : '/' ∉ obj := Text.not_mem_of_mem_split (t := Url.pathOf (front ++ obj :: back)) (by
        rw [hsplit]
        exact List.mem_cons_of_mem _ (List.mem_append_right front List.mem_cons_self))
      exact Url.isSegmentChar_of_isKept (List.all_eq_true.1 hkept c hpath) (ne_of_mem_of_not_mem hc hslash)
        (ne_of_mem_of_not_mem hpath hquery) (ne_of_mem_of_not_mem hpath hfragment)
    rcases placeholder_or_isIdSegment hone' with hseg | hid
    · obtain ⟨hliteral, hall⟩ := (target_of_placeholder hlib hone' hhost hurl hseg hobj).1 htarget
      exact ⟨hobj, hliteral, .inl ⟨hseg, hall⟩⟩
    · by_cases hmatched : Regex.matched pathId ctx.endpoint.url = []
      · obtain ⟨hliteral, hend⟩ := (target_of_identifier hlib hurl hsome hvalid hid hmatched hobj).1 htarget
        exact ⟨hobj, hliteral, .inr ⟨hurl ▸ hmatched, hend⟩⟩
      · exact absurd htarget (target_ne_of_identifier hlib hone' hhost hurl
          (hvalid seg (List.mem_append_right front List.mem_cons_self)) hid hmatched hobj)
  · rintro ⟨hobj, hliteral, hplace⟩
    have hvalid' : ∀ s ∈ front ++ obj :: back, s.all Url.isSegmentChar = true := by
      intro s hs
      rcases List.mem_append.1 hs with hs | hs
      · exact hvalid s (List.mem_append_left _ hs)
      · rcases List.mem_cons.1 hs with rfl | hs
        · exact hobj
        · exact hvalid s (List.mem_append_right front (List.mem_cons_of_mem seg hs))
    refine ⟨?_, U.urlsplit_written hvalid', Url.split_pathOf fun s hs ↦
      Url.not_mem_of_class (by decide) (hvalid' s hs)⟩
    rcases hplace with ⟨hseg, hall⟩ | ⟨hmatched, hend⟩
    · exact (target_of_placeholder hlib hone' hhost hurl hseg hobj).2 ⟨hliteral, hall⟩
    · rcases placeholder_or_isIdSegment hone' with hseg | hid
      · -- the placeholder of the URL would be a match
        rw [written_eq, Regex.matched_append pathId_delimited
          (fun v hv hsuffix ↦ first_before hone' hhost hv hsuffix _),
          Regex.matched_match pathId_delimited (hseg.isMatch _)] at hmatched
        cases hmatched
      · exact (target_of_identifier hlib hurl hsome hvalid hid (hurl ▸ hmatched) hobj).2 ⟨hliteral, hend⟩

end

/-! ### Two URLs -/

section

attribute [local instance] asciiTables asciiDigits

instance : @LawfulDigitTables asciiDigits := @LawfulDigitTables.mk asciiDigits fun _ ↦ rfl

/-- Group zero under its usual name. -/
@[reducible] def zeroNames : Regex.GroupNames where
  isWhole name := name = ['0']

attribute [local instance] zeroNames

/-- A library that knows the two patterns. -/
@[reducible] def pathLibrary : StandardLibrary where
  compile _ := .ok ()
  search pattern t := pattern = _PATH_ID ∧ (Regex.searchFrom pathId none t).isSome = true
  loads _ := .error .ValueError
  float _ := .error .ValueError
  render _ := ""
  int _ := .error .ValueError
  fullmatch _ _ := false
  sub pattern replacement t :=
    match Regex.sub (if pattern = _PATH_ID then pathId else lastSegment) replacement t with
    | some t => .ok t
    | none => .error .ValueError
  format _ _ := .error .ValueError

attribute [local instance] pathLibrary

theorem pathPatterns : PathPatterns where
  search t := by
    show decide (_PATH_ID = _PATH_ID ∧ (Regex.searchFrom pathId none t).isSome = true) = _
    cases (Regex.searchFrom pathId none t).isSome <;> rfl
  sub replacement t := by
    show Except.toOption (match pathId.sub replacement t with | some t => .ok t | none => .error _) = _
    cases pathId.sub replacement t <;> rfl
  sub_last replacement t := by
    show Except.toOption (match lastSegment.sub replacement t with | some t => .ok t | none => .error _) = _
    cases lastSegment.sub replacement t <;> rfl

/-- A URL of a path with these segments. -/
def plainUrl (segments : List Text) (h : ∀ s ∈ segments, s.all Url.isSegmentChar = true) : Url.UrlText where
  scheme := "http".toList
  netloc := "h".toList
  segments
  tail := []
  scheme_valid := by decide
  netloc_valid := ⟨rfl, rfl, rfl⟩
  segments_valid := h
  tail_valid := by decide

theorem tokenDigits_length : "0123456789".toList.length = 10 := rfl

theorem tokenDigits_hex : ∀ c ∈ "0123456789".toList, c ∈ "0123456789abcdef".toList :=
  fun _ ↦ List.mem_append_left "abcdef".toList

/-- An endpoint with the template of its URL. -/
def urlContext (U : Url.UrlText) : CheckContext where
  endpoint := {
    method := "GET".toList
    url := U.text
    path_template := Discovery.templatize_path U.path }
  tokens _ := ⟨"0123456789".toList, tokenDigits_length, tokenDigits_hex⟩

theorem userSegments_valid : ∀ s ∈ ["users".toList, "7".toList], s.all Url.isSegmentChar = true := by decide

theorem orderSegments_valid :
    ∀ s ∈ ["users".toList, "7".toList, "orders".toList], s.all Url.isSegmentChar = true := by decide

/-- A user. -/
def userUrl : Url.UrlText := plainUrl ["users".toList, "7".toList] userSegments_valid

/-- The orders of a user. -/
def ordersUrl : Url.UrlText := plainUrl ["users".toList, "7".toList, "orders".toList] orderSegments_valid

theorem placeholder_seven : Placeholder (templateSegment "7".toList) := by
  have htemplate : templateSegment "7".toList = "\x7bid\x7d".toList := by decide
  rw [htemplate]
  exact ⟨"id".toList, rfl, by decide, by decide⟩

theorem userUrl_segments : userUrl.segments = ["users".toList] ++ "7".toList :: [] := rfl

/-- The last segment is exchanged. -/
theorem user_exchanged : Exchanges userUrl ["users".toList] [] (urlContext userUrl) "9".toList :=
  (build_target_iff pathPatterns userUrl_segments (by decide) rfl rfl placeholder_seven
    (by decide +kernel) "9".toList).2 ⟨by decide, by decide, .inr ⟨by decide +kernel, .inl rfl⟩⟩

/-- Of another segment, the last one is exchanged all the same. -/
theorem orders_not_exchanged :
    ¬Exchanges ordersUrl ["users".toList] ["orders".toList] (urlContext ordersUrl) "9".toList := by
  intro h
  have htarget : _build_target (urlContext ordersUrl) "9".toList = .ok ("http://h/users/7/9".toList, []) := rfl
  have hurl := (Prod.mk.inj (Except.ok.inj (htarget.symm.trans h.target))).1
  exact absurd hurl (by decide)

end

end BolaCheck

end Checks

end Sentrik
