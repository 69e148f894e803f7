import Sentrik.Library.Text

/-!
# Patterns

The patterns of a backtracking matcher, with classes of characters, repetition of a class, alternatives,
groups, word boundaries and the end of a text. `ways` lists the ways a pattern matches at a place, the ones
the matcher tries first in front; so the match it reports is the first of them.

A greedy repetition tries the longest run first and a lazy one the shortest. Searching goes through the places
of a text from left to right, and `findall` goes on behind the match it found.
-/

/-- A place in a text: the character before it, and what follows it. -/
structure Place where
  before : Option Char
  rest : Text
  deriving DecidableEq, Repr

/-- A pattern. -/
inductive Regex
  /-- The empty text. -/
  | empty
  /-- One character of a class. -/
  | char (p : Char → Bool)
  /-- Any number of characters of a class, many or few. -/
  | many (p : Char → Bool) (greedy : Bool)
  /-- One side is a character of the class, the other is not. -/
  | edge (p : Char → Bool)
  /-- The end of the text, or the line break there. -/
  | last
  | seq (r s : Regex)
  | alt (r s : Regex)
  /-- The text that is matched is reported. -/
  | group (r : Regex)

namespace Regex

/-! ### Matching at a place -/

/-- The places behind the runs of a class, the shortest run first. -/
def runs (p : Char → Bool) : Option Char → Text → List Place
  | before, [] => [⟨before, []⟩]
  | before, c :: t => ⟨before, c :: t⟩ :: if p c then runs p (some c) t else []

/-- The text between two places. -/
def taken (a b : Place) : Text := a.rest.take (a.rest.length - b.rest.length)

/-- The ways of matching at a place, each with the texts of its groups and the place behind it. -/
def ways : Regex → Place → List (List Text × Place)
  | empty, a => [([], a)]
  | char p, a =>
    match a.rest with
    | [] => []
    | c :: t => if p c then [([], ⟨some c, t⟩)] else []
  | many p greedy, a =>
    let l := runs p a.before a.rest
    (if greedy then l.reverse else l).map fun b ↦ ([], b)
  | edge p, a => if a.before.any p != a.rest.head?.any p then [([], a)] else []
  | last, a => if a.rest = [] ∨ a.rest = ['\n'] then [([], a)] else []
  | seq r s, a => (ways r a).flatMap fun x ↦ (ways s x.2).map fun y ↦ (x.1 ++ y.1, y.2)
  | alt r s, a => ways r a ++ ways s a
  | group r, a => (ways r a).map fun x ↦ (taken a x.2 :: x.1, x.2)

/-- The match at a place. -/
def first (r : Regex) (a : Place) : Option (List Text × Place) := (ways r a).head?

/-! ### Searching -/

/-- The groups of the first match. -/
def searchFrom (r : Regex) : Option Char → Text → Option (List Text)
  | before, [] => (first r ⟨before, []⟩).map Prod.fst
  | before, c :: t =>
    match first r ⟨before, c :: t⟩ with
    | some x => some x.1
    | none => searchFrom r (some c) t

/-- The first group of the first match. -/
def search (r : Regex) (t : Text) : Option Text := (searchFrom r none t).map fun groups ↦ groups.headD []

/-- The groups of the matches; the next one is looked for behind the characters that are to be skipped. For
patterns that do not match the empty text. -/
def findallFrom (r : Regex) : Option Char → Text → ℕ → List (List Text)
  | _, [], _ => []
  | _, c :: t, skip + 1 => findallFrom r (some c) t skip
  | before, c :: t, 0 =>
    match first r ⟨before, c :: t⟩ with
    | some x => x.1 :: findallFrom r (some c) t (t.length - x.2.rest.length)
    | none => findallFrom r (some c) t 0

/-- The first groups of the matches. -/
def findall (r : Regex) (t : Text) : List Text := (findallFrom r none t 0).map fun groups ↦ groups.headD []

/-! ### Building patterns -/

/-- The characters a letter stands for when case is ignored; the letter is a small one. -/
def caseless (c x : Char) : Bool :=
  x.toLower == c || c == 'i' && (x == '\u0130' || x == '\u0131') || c == 's' && x == '\u017f' ||
    c == 'k' && x == '\u212a'

/-- A word in any case. -/
def word (t : Text) : Regex := t.foldr (fun c r ↦ seq (char (caseless c)) r) empty

/-- One character or more. -/
def plus (p : Char → Bool) (greedy : Bool) : Regex := seq (char p) (many p greedy)

/-- One pattern after the other. -/
def all (rs : List Regex) : Regex := rs.foldr seq empty

/-! ### Sequences -/

variable {r t : Regex} {a b : Place} {p q : Char → Bool}

theorem ways_seq_of_nil (h : ways r a = []) : ways (seq r t) a = [] := by
  rw [ways, h, List.flatMap_nil]

/-- A part that matches in one way, without a group. -/
theorem ways_seq_of_singleton (h : ways r a = [([], b)]) : ways (seq r t) a = ways t b := by
  rw [ways, h, List.flatMap_singleton]
  exact List.map_id _

/-! ### Words -/

/-- The text starts with the word, in any case. -/
def startsWord : Text → Text → Bool
  | [], _ => true
  | _ :: _, [] => false
  | c :: w, x :: t => caseless c x && startsWord w t

/-- The place behind a number of characters. -/
def Place.skip (a : Place) : ℕ → Place
  | 0 => a
  | n + 1 =>
    match a.rest with
    | [] => a
    | c :: t => Place.skip ⟨some c, t⟩ n

theorem ways_word {w : Text} : ways (word w) a =
    if startsWord w a.rest then [([], Place.skip a w.length)] else [] := by
  induction w generalizing a with
  | nil => rfl
  | cons c w ih =>
    obtain ⟨before, rest⟩ := a
    cases rest with
    | nil => rfl
    | cons x rest =>
      show ways (seq (char (caseless c)) (word w)) ⟨before, x :: rest⟩ = _
      rw [startsWord]
      cases hx : caseless c x with
      | true =>
        have hchar : ways (char (caseless c)) ⟨before, x :: rest⟩ = [([], ⟨some x, rest⟩)] := if_pos hx
        rw [ways_seq_of_singleton hchar, ih]
        rfl
      | false => exact ways_seq_of_nil (if_neg (by rw [hx]; exact Bool.false_ne_true))

theorem skip_rest (a : Place) (n : ℕ) : (Place.skip a n).rest = a.rest.drop n := by
  induction n generalizing a with
  | zero => rfl
  | succ n ih =>
    obtain ⟨before, rest⟩ := a
    cases rest with
    | nil => rfl
    | cons c rest => exact ih _

/-- A word is found in front of a text only if it is there already. -/
theorem startsWord_append {w s t : Text} (h : startsWord w s = true) : startsWord w (s ++ t) = true := by
  induction w generalizing s with
  | nil => rfl
  | cons c w ih =>
    cases s with
    | nil => cases h
    | cons x s =>
      obtain ⟨hx, hw⟩ := Bool.and_eq_true_iff.1 h
      exact Bool.and_eq_true_iff.2 ⟨hx, ih hw⟩

/-! ### Repetitions -/

/-- The runs of a class: at all places but the last one, a character of the class follows. -/
theorem runs_eq (p : Char → Bool) (before : Option Char) (t : Text) :
    ∃ (bs : List Place) (b : Place), runs p before t = bs ++ [b] ∧ b.rest = t.dropWhile p ∧
      ∀ b' ∈ bs, ∃ c t', b'.rest = c :: t' ∧ p c = true := by
  induction t generalizing before with
  | nil => exact ⟨[], ⟨before, []⟩, rfl, rfl, nofun⟩
  | cons c t ih =>
    rw [runs]
    by_cases hc : p c = true
    · obtain ⟨bs, b, hruns, hrest, hbs⟩ := ih (some c)
      refine ⟨⟨before, c :: t⟩ :: bs, b, ?_, ?_, List.forall_mem_cons.2 ⟨⟨c, t, rfl, hc⟩, hbs⟩⟩
      · rw [if_pos hc, hruns, List.cons_append]
      · rw [hrest, List.dropWhile_cons_of_pos hc]
    · refine ⟨[], ⟨before, c :: t⟩, ?_, ?_, nofun⟩
      · rw [if_neg hc, List.nil_append]
      · rw [List.dropWhile_cons_of_neg hc]

/-- Only the longest run of a class is followed by a character outside of it. -/
theorem ways_many_char (hpq : ∀ c, q c = true → p c = false) (greedy : Bool) :
    ∃ before, ways (seq (many p greedy) (seq (char q) r)) a =
      ways (seq (char q) r) ⟨before, a.rest.dropWhile p⟩ := by
  obtain ⟨bs, b, hruns, hrest, hbs⟩ := runs_eq p a.before a.rest
  refine ⟨b.before, ?_⟩
  have hnone : ∀ b' ∈ bs, ways (seq (char q) r) b' = [] := by
    intro b' hb'
    obtain ⟨c, t, ht, hc⟩ := hbs b' hb'
    refine ways_seq_of_nil ?_
    rw [ways, ht]
    refine if_neg fun hq ↦ ?_
    rw [hpq c hq] at hc
    cases hc
  have hlast : (⟨b.before, a.rest.dropWhile p⟩ : Place) = b := by rw [← hrest]
  have hflat : ∀ l : List Place, (l.map fun b' ↦ (([] : List Text), b')).flatMap
      (fun x ↦ (ways (seq (char q) r) x.2).map fun y ↦ (x.1 ++ y.1, y.2)) =
        l.flatMap fun b' ↦ ways (seq (char q) r) b' := by
    intro l
    rw [List.flatMap_map]
    exact List.flatMap_congr fun b' _ ↦ List.map_id _
  rw [hlast, ways, ways, hruns]
  cases greedy with
  | true =>
    have hbs' : bs.reverse.flatMap (fun b' ↦ ways (seq (char q) r) b') = [] :=
      List.flatMap_eq_nil_iff.2 fun b' hb' ↦ hnone b' (List.mem_reverse.1 hb')
    rw [if_pos rfl, List.reverse_append, hflat, List.flatMap_append, hbs', List.append_nil]
    exact List.flatMap_singleton _ _
  | false =>
    have hbs' : bs.flatMap (fun b' ↦ ways (seq (char q) r) b') = [] := List.flatMap_eq_nil_iff.2 hnone
    rw [if_neg Bool.false_ne_true, hflat, List.flatMap_append, hbs', List.nil_append]
    exact List.flatMap_singleton _ _

theorem taken_append (a b : Place) (s : Text) (h : a.rest = s ++ b.rest) : taken a b = s := by
  rw [taken, h, List.length_append, Nat.add_sub_cancel, List.take_left]

/-- **A lazy group** ends at the first place where the rest of the pattern matches. -/
theorem first_lazy {s t rest : Text} (ha : a.rest = s ++ t)
    (hbefore : ∀ b u, u ≠ [] → u <:+ s → b.rest = u ++ t → ways r b = [])
    (hthere : ∀ b, b.rest = t → ∃ e l, ways r b = ([], e) :: l ∧ e.rest = rest) :
    ∃ e, first (seq (group (many (fun _ ↦ true) false)) r) a = some ([s], e) ∧ e.rest = rest := by
  -- the runs from any place before the end of the group, with the group as it is taken from the start
  have hrun : ∀ (u : Text) (before : Option Char), u <:+ s →
      ∃ e, ((runs (fun _ ↦ true) before (u ++ t)).flatMap fun b ↦
        (ways r b).map fun y ↦ (taken a b :: y.1, y.2)).head? = some ([s], e) ∧ e.rest = rest := by
    intro u
    induction u with
    | nil =>
      intro before _
      obtain ⟨e, l, hways, he⟩ := hthere ⟨before, t⟩ rfl
      refine ⟨e, ?_, he⟩
      have hruns : ∃ bs, runs (fun _ ↦ true) before t = ⟨before, t⟩ :: bs := by
        cases t with
        | nil => exact ⟨[], rfl⟩
        | cons c t => exact ⟨_, rfl⟩
      obtain ⟨bs, hruns⟩ := hruns
      rw [List.nil_append, hruns, List.flatMap_cons, hways, taken_append a ⟨before, t⟩ s ha]
      rfl
    | cons c u ih =>
      intro before hsuffix
      have hnone : ways r ⟨before, c :: u ++ t⟩ = [] :=
        hbefore _ _ (List.cons_ne_nil c u) hsuffix rfl
      rw [List.cons_append, runs, List.flatMap_cons, ← List.cons_append, hnone, List.map_nil,
        List.nil_append]
      exact ih (some c) ((List.suffix_cons c u).trans hsuffix)
  obtain ⟨e, hfirst, he⟩ := hrun s a.before List.suffix_rfl
  refine ⟨e, ?_, he⟩
  rw [first, ways, ways, ways, if_neg Bool.false_ne_true, ha, List.map_map, List.flatMap_map]
  exact hfirst

/-! ### All matches -/

theorem findallFrom_skip (r : Regex) (before : Option Char) (s t : Text) :
    ∃ before', findallFrom r before (s ++ t) s.length = findallFrom r before' t 0 := by
  induction s generalizing before with
  | nil => exact ⟨before, rfl⟩
  | cons c s ih => exact ih (some c)

/-- No match begins in the first part. -/
theorem findallFrom_of_none {s t : Text} (before : Option Char)
    (h : ∀ b u, u ≠ [] → u <:+ s → b.rest = u ++ t → first r b = none) :
    ∃ before', findallFrom r before (s ++ t) 0 = findallFrom r before' t 0 := by
  induction s generalizing before with
  | nil => exact ⟨before, rfl⟩
  | cons c s ih =>
    have hnone : first r ⟨before, c :: (s ++ t)⟩ = none :=
      h _ _ (List.cons_ne_nil c s) List.suffix_rfl rfl
    rw [List.cons_append, findallFrom, hnone]
    exact ih (some c) fun b u hu hsuffix ↦ h b u hu (hsuffix.trans (List.suffix_cons c s))

/-- The first part is a match. -/
theorem findallFrom_of_first {s t : Text} {groups : List Text} {e : Place} (before : Option Char) (hs : s ≠ [])
    (h : first r ⟨before, s ++ t⟩ = some (groups, e)) (he : e.rest = t) :
    ∃ before', findallFrom r before (s ++ t) 0 = groups :: findallFrom r before' t 0 := by
  cases s with
  | nil => exact absurd rfl hs
  | cons c s =>
    rw [List.cons_append] at h ⊢
    obtain ⟨before', hskip⟩ := findallFrom_skip r (some c) s t
    refine ⟨before', ?_⟩
    rw [findallFrom, h]
    show groups :: findallFrom r (some c) (s ++ t) ((s ++ t).length - e.rest.length) = _
    rw [he, List.length_append, Nat.add_sub_cancel, hskip]

/-! ### Where a pattern leads -/

/-- Some way of matching leads from one place to the other. -/
def Reaches (r : Regex) (a b : Place) : Prop := ∃ groups, (groups, b) ∈ ways r a

theorem reaches_of_first {x : List Text × Place} (h : first r a = some x) : Reaches r a x.2 :=
  ⟨x.1, List.mem_of_head? h⟩

theorem first_eq_none_iff : first r a = none ↔ ∀ b, ¬Reaches r a b := by
  rw [first, List.head?_eq_none_iff, List.eq_nil_iff_forall_not_mem]
  exact ⟨fun h b ⟨groups, hb⟩ ↦ h _ hb, fun h x hx ↦ h x.2 ⟨x.1, hx⟩⟩

theorem reaches_empty : Reaches empty a b ↔ b = a := by
  constructor
  · rintro ⟨groups, h⟩
    exact (Prod.mk.inj (List.mem_singleton.1 h)).2
  · rintro rfl
    exact ⟨[], List.mem_singleton_self _⟩

theorem reaches_char : Reaches (char p) a b ↔
    ∃ c, p c = true ∧ a.rest = c :: b.rest ∧ b.before = some c := by
  obtain ⟨before, rest⟩ := a
  constructor
  · rintro ⟨groups, h⟩
    cases rest with
    | nil => cases h
    | cons c t =>
      replace h : (groups, b) ∈ if p c then [([], (⟨some c, t⟩ : Place))] else [] := h
      cases hc : p c with
      | true =>
        rw [hc, if_pos rfl] at h
        obtain ⟨-, rfl⟩ := Prod.mk.inj (List.mem_singleton.1 h)
        exact ⟨c, hc, rfl, rfl⟩
      | false =>
        rw [hc, if_neg Bool.false_ne_true] at h
        cases h
  · rintro ⟨c, hc, hrest, hbefore⟩
    obtain ⟨before', t⟩ := b
    subst hrest hbefore
    refine ⟨[], ?_⟩
    show _ ∈ if p c then [([], (⟨some c, t⟩ : Place))] else []
    rw [if_pos hc]
    exact List.mem_singleton_self _

theorem reaches_last : Reaches last a b ↔ b = a ∧ (a.rest = [] ∨ a.rest = ['\n']) := by
  constructor
  · rintro ⟨groups, h⟩
    rw [ways] at h
    split at h
    · next hend => exact ⟨(Prod.mk.inj (List.mem_singleton.1 h)).2, hend⟩
    · cases h
  · rintro ⟨rfl, hend⟩
    refine ⟨[], ?_⟩
    rw [ways, if_pos hend]
    exact List.mem_singleton_self _

theorem reaches_seq {c : Place} : Reaches (seq r t) a c ↔ ∃ b, Reaches r a b ∧ Reaches t b c := by
  constructor
  · rintro ⟨groups, h⟩
    obtain ⟨x, hx, hmap⟩ := List.mem_flatMap.1 h
    obtain ⟨y, hy, heq⟩ := List.mem_map.1 hmap
    obtain ⟨-, rfl⟩ := Prod.mk.inj heq
    exact ⟨x.2, ⟨x.1, hx⟩, y.1, hy⟩
  · rintro ⟨b, ⟨groups, hb⟩, groups', hc⟩
    exact ⟨groups ++ groups', List.mem_flatMap.2 ⟨_, hb, List.mem_map.2 ⟨_, hc, rfl⟩⟩⟩

theorem reaches_alt : Reaches (alt r t) a b ↔ Reaches r a b ∨ Reaches t a b := by
  simp only [Reaches, ways, List.mem_append, exists_or]

theorem reaches_runs {before : Option Char} {s : Text} :
    b ∈ runs p before s → ∃ u, (∀ c ∈ u, p c = true) ∧ s = u ++ b.rest := by
  induction s generalizing before with
  | nil =>
    intro h
    obtain rfl := List.mem_singleton.1 h
    exact ⟨[], nofun, rfl⟩
  | cons c s ih =>
    intro h
    rcases List.mem_cons.1 h with rfl | h
    · exact ⟨[], nofun, rfl⟩
    · split at h
      · next hc =>
        obtain ⟨u, hu, hs⟩ := ih h
        exact ⟨c :: u, List.forall_mem_cons.2 ⟨hc, hu⟩, congrArg _ hs⟩
      · cases h

theorem rest_of_reaches_many {greedy : Bool} (h : Reaches (many p greedy) a b) :
    ∃ s, (∀ c ∈ s, p c = true) ∧ a.rest = s ++ b.rest := by
  obtain ⟨groups, h⟩ := h
  obtain ⟨b', hb', heq⟩ := List.mem_map.1 h
  obtain ⟨-, rfl⟩ := Prod.mk.inj heq
  cases greedy with
  | true => exact reaches_runs (List.mem_reverse.1 hb')
  | false => exact reaches_runs hb'

theorem mem_runs {s t : Text} (before : Option Char) (hs : ∀ c ∈ s, p c = true) :
    ∃ b ∈ runs p before (s ++ t), b.rest = t := by
  induction s generalizing before with
  | nil =>
    refine ⟨⟨before, t⟩, ?_, rfl⟩
    cases t with
    | nil => exact List.mem_singleton_self _
    | cons c t => exact List.mem_cons_self
  | cons c s ih =>
    obtain ⟨hc, hs⟩ := List.forall_mem_cons.1 hs
    obtain ⟨b, hb, hrest⟩ := ih (some c) hs
    refine ⟨b, List.mem_cons_of_mem _ ?_, hrest⟩
    rw [if_pos hc]
    exact hb

theorem reaches_many {s t : Text} (greedy : Bool) (ha : a.rest = s ++ t) (hs : ∀ c ∈ s, p c = true) :
    ∃ b, Reaches (many p greedy) a b ∧ b.rest = t := by
  obtain ⟨b, hb, hrest⟩ := mem_runs (t := t) a.before hs
  refine ⟨b, ⟨[], List.mem_map.2 ⟨b, ?_, rfl⟩⟩, hrest⟩
  rw [ha]
  cases greedy with
  | true => exact List.mem_reverse.2 hb
  | false => exact hb

theorem reaches_word {w : Text} : Reaches (word w) a b ↔
    startsWord w a.rest = true ∧ b = Place.skip a w.length := by
  rw [Reaches, ways_word]
  constructor
  · rintro ⟨groups, h⟩
    split at h
    · next hw => exact ⟨hw, (Prod.mk.inj (List.mem_singleton.1 h)).2⟩
    · cases h
  · rintro ⟨hw, rfl⟩
    rw [if_pos hw]
    exact ⟨[], List.mem_singleton_self _⟩

/-- A pattern leads forward. -/
theorem rest_of_reaches (h : Reaches r a b) : ∃ s, a.rest = s ++ b.rest := by
  induction r generalizing a b with
  | empty =>
    obtain rfl := reaches_empty.1 h
    exact ⟨[], rfl⟩
  | char p =>
    obtain ⟨c, -, hrest, -⟩ := reaches_char.1 h
    exact ⟨[c], hrest⟩
  | many p greedy =>
    obtain ⟨s, -, hrest⟩ := rest_of_reaches_many h
    exact ⟨s, hrest⟩
  | edge p =>
    obtain ⟨groups, h⟩ := h
    rw [ways] at h
    split at h
    · obtain ⟨-, rfl⟩ := Prod.mk.inj (List.mem_singleton.1 h)
      exact ⟨[], rfl⟩
    · cases h
  | last =>
    obtain ⟨rfl, -⟩ := reaches_last.1 h
    exact ⟨[], rfl⟩
  | seq r t ihr iht =>
    obtain ⟨c, hr, ht⟩ := reaches_seq.1 h
    obtain ⟨s, hs⟩ := ihr hr
    obtain ⟨s', hs'⟩ := iht ht
    exact ⟨s ++ s', by rw [hs, hs', List.append_assoc]⟩
  | alt r t ihr iht =>
    rcases reaches_alt.1 h with hr | ht
    · exact ihr hr
    · exact iht ht
  | group r ih =>
    obtain ⟨groups, h⟩ := h
    obtain ⟨x, hx, heq⟩ := List.mem_map.1 h
    obtain ⟨-, rfl⟩ := Prod.mk.inj heq
    exact ih ⟨x.1, hx⟩

theorem first_group (r : Regex) (a : Place) :
    first (group r) a = (first r a).map fun x ↦ (taken a x.2 :: x.1, x.2) := by
  rw [first, ways, List.head?_map, first]

end Regex
