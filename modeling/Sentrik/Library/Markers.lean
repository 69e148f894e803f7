import Sentrik.Library.Fragments
import Mathlib.Data.List.Forall2

/-!
# Substitutions by markers

A marker is a name between two characters. When no match of a pattern meets a marker (`Clear`), the pattern
is matched in the texts between markers as in each of them alone, since a marker beside a text is to the pattern
like the end of a text (`ways_beside`). So a substitution works on each of the texts by itself
(`substitute_intercalate`), and so does a search (`searchFrom_intercalate`).

By `searchFrom_substituteAll`, after several substitutions in turn a pattern is found exactly when it is found in
one of the fragments, each read by itself.
-/

namespace Regex

variable {r : Regex} {a b : Place} {p : Char → Bool} {opening closing : Char} {s : Text}

/-! ### A marker beside a text -/

/-- The pattern tells the character from none of those outside its classes. -/
def Avoids (c : Char) : Regex → Prop
  | empty => True
  | char p | many p _ | edge p => p c = false
  | last => False
  | seq r t | alt r t => Avoids c r ∧ Avoids c t
  | group r => Avoids c r

theorem Avoids.inner {c : Char} (h : Avoids c r) : Inner r := by
  induction r with
  | empty | char | many | edge => trivial
  | last => exact absurd h id
  | seq r t ihr iht => exact ⟨ihr h.1, iht h.2⟩
  | alt r t ihr iht => exact ⟨ihr h.1, iht h.2⟩
  | group r ih => exact ih h

/-- No match has the character. -/
theorem Avoids.notMem {c : Char} (h : Avoids c r) {m : Text} {before after : Option Char}
    (hfits : Fits r before m after) : c ∉ m := by
  induction r generalizing m before after with
  | empty =>
    rw [show m = [] from hfits]
    exact List.not_mem_nil
  | char p =>
    obtain ⟨d, hd, rfl⟩ := hfits
    rw [List.mem_singleton]
    rintro rfl
    exact Bool.false_ne_true (h.symm.trans hd)
  | many p => exact fun hc ↦ Bool.false_ne_true (h.symm.trans (hfits c hc))
  | edge p =>
    rw [hfits.1]
    exact List.not_mem_nil
  | last => exact absurd h id
  | seq r t ihr iht =>
    obtain ⟨u, v, rfl, hu, hv⟩ := hfits
    rw [List.mem_append, not_or]
    exact ⟨ihr h.1 hu, iht h.2 hv⟩
  | alt r t ihr iht => exact hfits.elim (ihr h.1) (iht h.2)
  | group r ih => exact ih h hfits

section

variable {c : Char}

theorem avoids_text {u : Text} (h : c ∉ u) : Avoids c (text u) := by
  induction u with
  | nil => trivial
  | cons d u ih =>
    rw [List.mem_cons, not_or] at h
    exact ⟨beq_eq_false_iff_ne.2 h.1, ih h.2⟩

theorem avoids_times (h : p c = false) (n : ℕ) : Avoids c (times p n) := by
  induction n with
  | zero => trivial
  | succ n ih => exact ⟨h, ih⟩

theorem avoids_upTo (h : p c = false) (n : ℕ) : Avoids c (upTo p n) := by
  induction n with
  | zero => trivial
  | succ n ih => exact ⟨⟨h, ih⟩, trivial⟩

theorem avoids_between (h : p c = false) (least most : ℕ) : Avoids c (between p least most) :=
  ⟨avoids_times h least, avoids_upTo h _⟩

theorem avoids_atLeast (h : p c = false) (n : ℕ) : Avoids c (atLeast p n) := ⟨avoids_times h n, h⟩

theorem avoids_bounded {w : Char → Bool} {core : Regex} (hw : w c = false) (h : Avoids c core) :
    Avoids c (bounded w core) := ⟨hw, h, hw⟩

end

/-- The same place, in a text that has more behind it, and a marker before it or the same character. -/
structure Beside (closing : Char) (s : Text) (a b : Place) : Prop where
  rest : b.rest = a.rest ++ s
  before : b.before = a.before ∨ a.before = none ∧ b.before = some closing

/-- Nothing follows, or a marker does. -/
def Behind (opening : Char) (s : Text) : Prop := s = [] ∨ ∃ t, s = opening :: t

theorem Behind.head?_any (h : Behind opening s) (hp : p opening = false) : s.head?.any p = false := by
  rcases h with rfl | ⟨t, rfl⟩
  · rfl
  · exact hp

theorem runs_beside (hopening : p opening = false) (hs : Behind opening s) {before before' : Option Char}
    {u : Text} (hbefore : before' = before ∨ before = none ∧ before' = some closing) :
    List.Forall₂ (Beside closing s) (runs p before u) (runs p before' (u ++ s)) := by
  induction u generalizing before before' with
  | nil =>
    have hruns : runs p before' s = [⟨before', s⟩] := by
      rcases hs with rfl | ⟨t, rfl⟩
      · rfl
      · rw [runs, if_neg (by rw [hopening]; exact Bool.false_ne_true)]
    rw [List.nil_append, hruns, runs]
    exact .cons ⟨rfl, hbefore⟩ .nil
  | cons c u ih =>
    rw [List.cons_append, runs, runs]
    refine .cons ⟨rfl, hbefore⟩ ?_
    by_cases hc : p c = true
    · rw [if_pos hc, if_pos hc]
      exact ih (Or.inl rfl)
    · rw [if_neg hc, if_neg hc]
      exact .nil

/-- **A marker beside a text** changes nothing in the ways a pattern matches there. -/
theorem ways_beside (hopening : Avoids opening r) (hclosing : Avoids closing r) (hs : Behind opening s)
    (hab : Beside closing s a b) :
    List.Forall₂ (fun x y ↦ Beside closing s x.2 y.2) (ways r a) (ways r b) := by
  induction r generalizing a b with
  | empty => exact .cons hab .nil
  | char p =>
    obtain ⟨before, rest⟩ := a
    obtain ⟨before', rest'⟩ := b
    obtain ⟨rfl, -⟩ := hab
    cases rest with
    | nil =>
      have hnil : ways (char p) ⟨before', s⟩ = [] := by
        rcases hs with rfl | ⟨t, rfl⟩
        · rfl
        · exact if_neg (by rw [show p opening = false from hopening]; exact Bool.false_ne_true)
      rw [List.nil_append, hnil]
      exact .nil
    | cons c rest =>
      show List.Forall₂ _ (if p c then [(([] : List Text), Place.mk (some c) rest)] else [])
        (if p c then [(([] : List Text), Place.mk (some c) (rest ++ s))] else [])
      by_cases hc : p c = true
      · rw [if_pos hc, if_pos hc]
        exact .cons ⟨rfl, Or.inl rfl⟩ .nil
      · rw [if_neg hc, if_neg hc]
        exact .nil
  | many p greedy =>
    obtain ⟨before, rest⟩ := a
    obtain ⟨before', rest'⟩ := b
    obtain ⟨rfl, hbefore⟩ := hab
    have hruns := runs_beside (u := rest) (p := p) hopening hs hbefore
    rw [ways, ways, List.forall₂_map_left_iff, List.forall₂_map_right_iff]
    cases greedy with
    | true => exact List.forall₂_reverse_iff.2 hruns
    | false => exact hruns
  | edge p =>
    have hbefore : b.before.any p = a.before.any p := by
      rcases hab.before with heq | ⟨hnone, hsome⟩
      · rw [heq]
      · rw [hnone, hsome]
        exact hclosing
    have hafter : b.rest.head?.any p = a.rest.head?.any p := by
      rw [hab.rest]
      cases a.rest with
      | nil => exact hs.head?_any hopening
      | cons c u => rfl
    rw [ways, ways, hbefore, hafter]
    split
    · exact .cons hab .nil
    · exact .nil
  | last => exact absurd hopening id
  | seq r t ihr iht =>
    rw [ways, ways]
    refine List.rel_flatMap (ihr hopening.1 hclosing.1 hab) fun x y hxy ↦ ?_
    rw [List.forall₂_map_left_iff, List.forall₂_map_right_iff]
    exact iht hopening.2 hclosing.2 hxy
  | alt r t ihr iht =>
    rw [ways, ways]
    exact List.rel_append (ihr hopening.1 hclosing.1 hab) (iht hopening.2 hclosing.2 hab)
  | group r ih =>
    rw [ways, ways, List.forall₂_map_left_iff, List.forall₂_map_right_iff]
    exact ih hopening hclosing hab

theorem first_beside (hopening : Avoids opening r) (hclosing : Avoids closing r) (hs : Behind opening s)
    (hab : Beside closing s a b) : (first r a = none ∧ first r b = none) ∨
      ∃ x y, first r a = some x ∧ first r b = some y ∧ y.2.rest = x.2.rest ++ s := by
  have hways := ways_beside hopening hclosing hs hab
  rw [first, first]
  generalize ways r a = l, ways r b = l' at hways
  cases hways with
  | nil => exact Or.inl ⟨rfl, rfl⟩
  | cons hxy => exact Or.inr ⟨_, _, rfl, rfl, hxy.rest⟩

/-! ### Texts between markers -/

variable {before before' : Option Char} {u : Text}

theorem substituteFrom_beside {new : Text} (hopening : Avoids opening r) (hclosing : Avoids closing r)
    (hs : Behind opening s) (hbefore : before' = before ∨ before = none ∧ before' = some closing) {n : ℕ}
    (hn : n ≤ u.length) : substituteFrom r [.text new] before' (u ++ s) n =
      substituteFrom r [.text new] before u n ++ substituteFrom r [.text new] (u.getLast?.or before') s 0 := by
  induction u generalizing before before' n with
  | nil =>
    obtain rfl : n = 0 := Nat.le_zero.1 hn
    rfl
  | cons c u ih =>
    rw [getLast?_cons_or]
    cases n with
    | succ n => exact ih (Or.inl rfl) (Nat.le_of_succ_le_succ hn)
    | zero =>
      have hab : Beside closing s ⟨before, c :: u⟩ ⟨before', c :: (u ++ s)⟩ := ⟨rfl, hbefore⟩
      rw [List.cons_append, substituteFrom, substituteFrom]
      rcases first_beside hopening hclosing hs hab with ⟨ha, hb⟩ | ⟨x, y, hx, hy, hrest⟩
      · rw [ha, hb]
        exact congrArg (c :: ·) (ih (Or.inl rfl) (Nat.zero_le _))
      · have hskip : (u ++ s).length - y.2.rest.length = u.length - x.2.rest.length := by
          rw [hrest, List.length_append, List.length_append]
          omega
        rw [hx, hy]
        show _ ++ substituteFrom r [.text new] (some c) (u ++ s) _ = (_ ++ _) ++ _
        rw [hskip, ih (Or.inl rfl) (Nat.sub_le _ _), List.append_assoc]
        rfl

theorem searchFrom_beside (hne : NonEmpty r) (hopening : Avoids opening r) (hclosing : Avoids closing r)
    (hs : Behind opening s) (hbefore : before' = before ∨ before = none ∧ before' = some closing) :
    searchFrom r before' (u ++ s) = none ↔
      searchFrom r before u = none ∧ searchFrom r (u.getLast?.or before') s = none := by
  induction u generalizing before before' with
  | nil =>
    have hnil : searchFrom r before [] = none := by
      rw [searchFrom_eq_none_iff_fits hopening.inner]
      intro x m y heq hfits
      exact hne hfits (List.append_eq_nil_iff.1 (List.append_eq_nil_iff.1 heq.symm).2).1
    exact (and_iff_right hnil).symm
  | cons c u ih =>
    have hab : Beside closing s ⟨before, c :: u⟩ ⟨before', c :: (u ++ s)⟩ := ⟨rfl, hbefore⟩
    rw [getLast?_cons_or, List.cons_append, searchFrom, searchFrom]
    rcases first_beside hopening hclosing hs hab with ⟨ha, hb⟩ | ⟨x, y, hx, hy, -⟩
    · rw [ha, hb]
      exact ih (Or.inl rfl)
    · rw [hx, hy]
      exact iff_of_false (by rintro ⟨⟩) (by rintro ⟨⟨⟩, -⟩)

/-- The text is a name between two characters, and no match meets it: it has other characters than the name. -/
def Clear (r : Regex) (marker : Text) : Prop :=
  ∃ opening name closing, marker = opening :: (name ++ [closing]) ∧ Avoids opening r ∧ Avoids closing r ∧
    ∀ before m after, Fits r before m after → ∃ c ∈ m, c ∉ name

variable {marker : Text}

theorem clear_of_requires {name : Text} (hmarker : marker = opening :: (name ++ [closing]))
    (hopening : Avoids opening r) (hclosing : Avoids closing r) (h : Requires p r)
    (hname : ∀ c ∈ name, p c = false) : Clear r marker := by
  refine ⟨opening, name, closing, hmarker, hopening, hclosing, fun before m after hfits ↦ ?_⟩
  obtain ⟨c, hc, hp⟩ := h.exists_mem hfits
  refine ⟨c, hc, fun hmem ↦ ?_⟩
  rw [hname c hmem] at hp
  cases hp

theorem Clear.inner (h : Clear r marker) : Inner r := by
  obtain ⟨opening, name, closing, -, hopening, -⟩ := h
  exact hopening.inner

theorem Clear.nonEmpty (h : Clear r marker) : NonEmpty r := by
  obtain ⟨opening, name, closing, -, -, -, houtside⟩ := h
  intro before m after hfits
  obtain ⟨c, hc, -⟩ := houtside before m after hfits
  exact List.ne_nil_of_mem hc

/-- No match begins in a marker. -/
theorem first_marker {name v t : Text} (hopening : Avoids opening r) (hclosing : Avoids closing r)
    (houtside : ∀ before m after, Fits r before m after → ∃ c ∈ m, c ∉ name) (hv : v ≠ [])
    (hsuffix : v <:+ opening :: (name ++ [closing])) {before : Option Char} :
    first r ⟨before, v ++ t⟩ = none := by
  rw [first_eq_none_iff_fits hopening.inner]
  intro m x heq hfits
  obtain ⟨c, hc, hname⟩ := houtside before m x.head? hfits
  have hne : m ≠ [] := List.ne_nil_of_mem hc
  rcases List.suffix_cons_iff.1 hsuffix with rfl | hsuffix
  · -- a match here would begin with the first character of the marker
    obtain ⟨d, m, rfl⟩ := List.exists_cons_of_ne_nil hne
    obtain ⟨rfl, -⟩ := List.cons.inj heq
    exact hopening.notMem hfits List.mem_cons_self
  · obtain ⟨v', hv'⟩ := hsuffix
    obtain ⟨v, d, rfl⟩ := (List.eq_nil_or_concat' v).resolve_left hv
    rw [← List.append_assoc] at hv'
    obtain ⟨hname', hd⟩ := List.append_inj' hv' rfl
    obtain rfl := List.singleton_inj.1 hd
    -- it ends before the last one, so it lies in the name
    have hle : m <+: v := by
      rw [List.append_assoc] at heq
      rcases List.append_eq_append_iff.1 heq with ⟨y, rfl, hy⟩ | ⟨y, rfl, -⟩
      · cases y with
        | nil =>
          exact ⟨[], by rw [List.append_nil, List.append_nil]⟩
        | cons e y =>
          obtain ⟨rfl, -⟩ := List.cons.inj hy
          exact absurd (List.mem_append_right v List.mem_cons_self) (hclosing.notMem hfits)
      · exact List.prefix_append m y
    exact hname (hname' ▸ List.mem_append_right v' (hle.subset hc))

theorem fill_text (m new : Text) : fill m [.text new] = new := List.append_nil new

theorem getLast?_marker {name : Text} :
    (opening :: (name ++ [closing])).getLast?.or before = some closing := by
  rw [← List.cons_append, List.getLast?_concat, Option.some_or]

/-- What is behind a marker is read from its last character on. -/
theorem substituteFrom_marker {name new : Text} (hopening : Avoids opening r) (hclosing : Avoids closing r)
    (houtside : ∀ before m after, Fits r before m after → ∃ c ∈ m, c ∉ name) (t : Text) :
    substituteFrom r [.text new] before (opening :: (name ++ [closing]) ++ t) 0 =
      opening :: (name ++ [closing]) ++ substituteFrom r [.text new] (some closing) t 0 := by
  have hfill : ∀ m, fill m [.text new] = new := fun m ↦ fill_text m new
  have hnone : ∀ u v, opening :: (name ++ [closing]) = u ++ v → v ≠ [] →
      first r ⟨u.getLast?.or before, v ++ t⟩ = none := fun u v huv hv ↦
    first_marker hopening hclosing houtside hv ⟨u, huv.symm⟩
  rw [substituteFrom_eq_intercalate hfill, cutFrom_of_none before hnone, intercalate_onto, getLast?_marker,
    substituteFrom_eq_intercalate hfill]

theorem searchFrom_append_of_none {g t : Text} (before : Option Char)
    (h : ∀ u v, g = u ++ v → v ≠ [] → first r ⟨u.getLast?.or before, v ++ t⟩ = none) :
    searchFrom r before (g ++ t) = searchFrom r (g.getLast?.or before) t := by
  induction g generalizing before with
  | nil => rfl
  | cons c g ih =>
    have hnone : first r ⟨before, c :: (g ++ t)⟩ = none := h [] (c :: g) rfl (List.cons_ne_nil _ _)
    have hrest := ih (some c) fun u v huv hv ↦ by
      have hfirst := h (c :: u) v (congrArg _ huv) hv
      rwa [getLast?_cons_or] at hfirst
    rw [List.cons_append, searchFrom, hnone, getLast?_cons_or]
    exact hrest

/-- **A substitution** works on the texts between markers, each by itself. -/
theorem substitute_intercalate (h : Clear r marker) (new : Text) (qs : List Text) :
    substitute r [.text new] (List.intercalate marker qs) =
      List.intercalate marker (qs.map (substitute r [.text new])) := by
  obtain ⟨opening, name, closing, rfl, hopening, hclosing, houtside⟩ := h
  have hjoin : ∀ (qs : List Text) (q : Text) (before' : Option Char),
      before' = none ∨ before' = some closing →
      substituteFrom r [.text new] before' (q ++ qs.flatMap (opening :: (name ++ [closing]) ++ ·)) 0 =
        substitute r [.text new] q ++
          (qs.map (substitute r [.text new])).flatMap (opening :: (name ++ [closing]) ++ ·) := by
    intro qs
    induction qs with
    | nil =>
      intro q before' hbefore
      exact substituteFrom_beside hopening hclosing (Or.inl rfl) (hbefore.imp id (And.intro rfl)) (Nat.zero_le _)
    | cons q' qs ih =>
      intro q before' hbefore
      have hbehind : Behind opening (opening :: (name ++ [closing]) ++
          (q' ++ qs.flatMap (opening :: (name ++ [closing]) ++ ·))) := Or.inr ⟨_, rfl⟩
      have hside : before' = none ∨ (none : Option Char) = none ∧ before' = some closing :=
        hbefore.imp id (And.intro rfl)
      rw [List.flatMap_cons, List.map_cons, List.flatMap_cons, List.append_assoc (opening :: (name ++ [closing])) q',
        substituteFrom_beside hopening hclosing hbehind hside (Nat.zero_le _),
        substituteFrom_marker hopening hclosing houtside, ih q' (some closing) (Or.inr rfl),
        List.append_assoc (opening :: (name ++ [closing]))]
      rfl
  cases qs with
  | nil => rfl
  | cons q qs =>
    rw [Text.intercalate_cons, List.map_cons, Text.intercalate_cons]
    exact hjoin qs q none (Or.inl rfl)

/-- **A search** looks at the texts between markers, each by itself. -/
theorem searchFrom_intercalate (h : Clear r marker) (qs : List Text) :
    searchFrom r none (List.intercalate marker qs) = none ↔ ∀ q ∈ qs, searchFrom r none q = none := by
  have hne : NonEmpty r := h.nonEmpty
  obtain ⟨opening, name, closing, rfl, hopening, hclosing, houtside⟩ := h
  have hempty : ∀ before, searchFrom r before [] = none := by
    intro before
    rw [searchFrom_eq_none_iff_fits hopening.inner]
    intro x m y heq hfits
    exact hne hfits (List.append_eq_nil_iff.1 (List.append_eq_nil_iff.1 heq.symm).2).1
  have hjoin : ∀ (qs : List Text) (q : Text) (before' : Option Char),
      before' = none ∨ before' = some closing →
      (searchFrom r before' (q ++ qs.flatMap (opening :: (name ++ [closing]) ++ ·)) = none ↔
        ∀ q' ∈ q :: qs, searchFrom r none q' = none) := by
    intro qs
    induction qs with
    | nil =>
      intro q before' hbefore
      rw [List.flatMap_nil, searchFrom_beside hne hopening hclosing (Or.inl rfl) (hbefore.imp id (And.intro rfl)),
        List.forall_mem_singleton]
      exact and_iff_left (hempty _)
    | cons q' qs ih =>
      intro q before' hbefore
      have hnone : ∀ u v, opening :: (name ++ [closing]) = u ++ v → v ≠ [] → ∀ before t,
          first r ⟨u.getLast?.or before, v ++ t⟩ = none := fun u v huv hv before t ↦
        first_marker hopening hclosing houtside hv ⟨u, huv.symm⟩
      have hbehind : Behind opening (opening :: (name ++ [closing]) ++
          (q' ++ qs.flatMap (opening :: (name ++ [closing]) ++ ·))) := Or.inr ⟨_, rfl⟩
      have hside : before' = none ∨ (none : Option Char) = none ∧ before' = some closing :=
        hbefore.imp id (And.intro rfl)
      rw [List.flatMap_cons, List.append_assoc (opening :: (name ++ [closing])) q',
        searchFrom_beside hne hopening hclosing hbehind hside,
        searchFrom_append_of_none _ fun u v huv hv ↦ hnone u v huv hv _ _, getLast?_marker,
        ih q' (some closing) (Or.inr rfl), List.forall_mem_cons (a := q)]
  cases qs with
  | nil => exact iff_of_true (hempty none) (List.forall_mem_nil _)
  | cons q qs =>
    rw [Text.intercalate_cons]
    exact hjoin qs q none (Or.inl rfl)

/-! ### Substitutions in turn -/

/-- Replace the matches of one pattern after the other. -/
def substituteAll (rs : List (Regex × Text)) (t : Text) : Text :=
  rs.foldl (fun t r ↦ substitute r.1 [.text r.2] t) t

/-- What the matches of one pattern after the other leave. -/
def fragments : List Regex → Text → List Text
  | [], t => [t]
  | r :: rs, t => (cut r t).flatMap (fragments rs)

variable {rs : List (Regex × Text)} {t : Text}

/-- A text without a match is one fragment. -/
theorem cut_of_searchFrom (hr : Inner r) (h : searchFrom r none t = none) : cut r t = [t] := by
  have hnone : ∀ u v, t = u ++ v → v ≠ [] → first r ⟨u.getLast?.or none, v ++ []⟩ = none := by
    rintro u v rfl -
    rw [List.append_nil, first_eq_none_iff_fits hr]
    rintro m x rfl
    exact (searchFrom_eq_none_iff_fits hr).1 h u m x rfl
  have hcut := cutFrom_of_none (t := []) none hnone
  rw [List.append_nil] at hcut
  exact hcut.trans (congrArg (fun u ↦ [u]) (List.append_nil t))

/-- It stays as it is. -/
theorem substitute_of_searchFrom (hr : Inner r) {new : Text} (h : searchFrom r none t = none) :
    substitute r [.text new] t = t := by
  rw [substitute, substituteFrom_eq_intercalate fun m ↦ fill_text m new]
  exact (congrArg _ (cut_of_searchFrom hr h)).trans
    ((Text.intercalate_cons new t []).trans (List.append_nil t))

theorem substituteAll_of_searchFrom (h : ∀ x ∈ rs, Inner x.1 ∧ searchFrom x.1 none t = none) :
    substituteAll rs t = t := by
  induction rs with
  | nil => rfl
  | cons x rs ih =>
    obtain ⟨⟨hinner, hx⟩, hrs⟩ := List.forall_mem_cons.1 h
    show substituteAll rs (substitute x.1 [.text x.2] t) = t
    rw [substitute_of_searchFrom hinner hx, ih hrs]

theorem substituteAll_intercalate (h : ∀ x ∈ rs, Clear x.1 marker) (qs : List Text) :
    substituteAll rs (List.intercalate marker qs) = List.intercalate marker (qs.map (substituteAll rs)) := by
  induction rs generalizing qs with
  | nil => exact (congrArg _ (List.map_id qs)).symm
  | cons x rs ih =>
    obtain ⟨hx, hrs⟩ := List.forall_mem_cons.1 h
    show substituteAll rs (substitute x.1 [.text x.2] (List.intercalate marker qs)) = _
    rw [substitute_intercalate hx, ih hrs, List.map_map]
    rfl

/-- **After substitutions in turn**, a pattern is found exactly when it is found in a fragment, read by itself. -/
theorem searchFrom_substituteAll (hr : ∀ x ∈ rs, Clear r x.2) (h : ∀ x ∈ rs, ∀ y ∈ rs, Clear x.1 y.2)
    (t : Text) : searchFrom r none (substituteAll rs t) = none ↔
      ∀ q ∈ fragments (rs.map Prod.fst) t, searchFrom r none q = none := by
  induction rs generalizing t with
  | nil =>
    show searchFrom r none t = none ↔ ∀ q ∈ [t], searchFrom r none q = none
    rw [List.forall_mem_singleton]
  | cons x rs ih =>
    have hcut : substitute x.1 [.text x.2] t = List.intercalate x.2 (cut x.1 t) :=
      substituteFrom_eq_intercalate (fun m ↦ fill_text m x.2) none t 0
    have hclear : ∀ y ∈ rs, Clear y.1 x.2 := fun y hy ↦
      h y (List.mem_cons_of_mem x hy) x List.mem_cons_self
    obtain ⟨hrx, hrrs⟩ := List.forall_mem_cons.1 hr
    have hrest := ih hrrs fun y hy z hz ↦ h y (List.mem_cons_of_mem x hy) z (List.mem_cons_of_mem x hz)
    show searchFrom r none (substituteAll rs (substitute x.1 [.text x.2] t)) = none ↔ _
    rw [hcut, substituteAll_intercalate hclear, searchFrom_intercalate hrx, List.forall_mem_map]
    simp only [hrest]
    constructor
    · intro hall q hq
      obtain ⟨u, hu, hqu⟩ := List.mem_flatMap.1 hq
      exact hall u hu q hqu
    · exact fun hall u hu q hq ↦ hall q (List.mem_flatMap.2 ⟨u, hu, hq⟩)

end Regex
