import Sentrik.Library.Substitution
import Sentrik.Library.UrlText

/-!
# Fragments between matches

What a pattern without `last` matches, told by the text that is matched and the characters on both sides of it
(`Fits`): the matcher finds a match at a place exactly where some text there fits (`reaches_iff_fits`), and a
search finds nothing exactly where nothing in the text fits (`searchFrom_eq_none_iff_fits`).

A substitution by a fixed text joins the fragments between the matches (`substituteFrom_eq_intercalate`). A
fragment has no match in it, and on both sides of it there is an end of the text or a match (`IsFragment`).
-/

namespace Regex

/-! ### What fits between two characters -/

/-- The text is a match between these characters. -/
def Fits : Regex → Option Char → Text → Option Char → Prop
  | empty, _, m, _ => m = []
  | char p, _, m, _ => ∃ c, p c = true ∧ m = [c]
  | many p _, _, m, _ => ∀ c ∈ m, p c = true
  | edge p, before, m, after => m = [] ∧ (before.any p != after.any p) = true
  | last, _, _, _ => False
  | seq r t, before, m, after =>
    ∃ u v, m = u ++ v ∧ Fits r before u (v.head?.or after) ∧ Fits t (u.getLast?.or before) v after
  | alt r t, before, m, after => Fits r before m after ∨ Fits t before m after
  | group r, before, m, after => Fits r before m after

/-- The pattern does not ask for the end of the text. -/
def Inner : Regex → Prop
  | last => False
  | seq r t | alt r t => Inner r ∧ Inner t
  | group r => Inner r
  | _ => True

variable {r t : Regex} {a b : Place} {p : Char → Bool}

theorem getLast?_append_or (u v : Text) (before : Option Char) :
    (u ++ v).getLast?.or before = v.getLast?.or (u.getLast?.or before) := by
  rw [List.getLast?_append, Option.or_assoc]

theorem getLast?_cons_or (c : Char) (u : Text) (before : Option Char) :
    (c :: u).getLast?.or before = u.getLast?.or (some c) := getLast?_append_or [c] u before

theorem mem_runs_iff {before : Option Char} {s : Text} : b ∈ runs p before s ↔
    ∃ m, s = m ++ b.rest ∧ b.before = m.getLast?.or before ∧ ∀ c ∈ m, p c = true := by
  induction s generalizing before with
  | nil =>
    rw [runs, List.mem_singleton]
    constructor
    · rintro rfl
      exact ⟨[], rfl, rfl, by rintro _ ⟨⟩⟩
    · rintro ⟨m, hm, hbefore, -⟩
      obtain ⟨rfl, hrest⟩ := List.append_eq_nil_iff.1 hm.symm
      obtain ⟨before', rest⟩ := b
      obtain rfl : rest = [] := hrest
      rw [show before' = before from hbefore]
  | cons c s ih =>
    rw [runs, List.mem_cons]
    constructor
    · rintro (rfl | h)
      · exact ⟨[], rfl, rfl, by rintro _ ⟨⟩⟩
      · by_cases hc : p c = true
        · rw [if_pos hc] at h
          obtain ⟨m, hm, hbefore, hall⟩ := ih.1 h
          refine ⟨c :: m, congrArg _ hm, ?_, List.forall_mem_cons.2 ⟨hc, hall⟩⟩
          rw [hbefore]
          exact (getLast?_append_or [c] m before).symm
        · rw [if_neg hc] at h
          cases h
    · rintro ⟨m, hm, hbefore, hall⟩
      cases m with
      | nil =>
        left
        obtain ⟨before', rest⟩ := b
        obtain rfl : rest = c :: s := hm.symm
        rw [show before' = before from hbefore]
      | cons d m =>
        right
        obtain ⟨rfl, hs⟩ := List.cons.inj hm
        obtain ⟨hc, hall⟩ := List.forall_mem_cons.1 hall
        rw [if_pos hc]
        exact ih.2 ⟨m, hs, hbefore.trans (getLast?_append_or [c] m before), hall⟩

/-- **The matcher** gets from one place to the other exactly when the text between them fits. -/
theorem reaches_iff_fits (h : Inner r) : Reaches r a b ↔
    ∃ m, a.rest = m ++ b.rest ∧ b.before = m.getLast?.or a.before ∧ Fits r a.before m b.rest.head? := by
  have heq : ∀ {a b : Place}, a.rest = b.rest → a.before = b.before → a = b := by
    rintro ⟨_, _⟩ ⟨_, _⟩ rfl rfl
    rfl
  induction r generalizing a b with
  | empty =>
    rw [reaches_empty]
    constructor
    · rintro rfl
      exact ⟨[], rfl, rfl, rfl⟩
    · rintro ⟨m, hrest, hbefore, rfl⟩
      exact heq hrest.symm hbefore
  | char p =>
    rw [reaches_char]
    constructor
    · rintro ⟨c, hc, hrest, hbefore⟩
      exact ⟨[c], hrest, hbefore, c, hc, rfl⟩
    · rintro ⟨m, hrest, hbefore, c, hc, rfl⟩
      exact ⟨c, hc, hrest, hbefore⟩
  | many p greedy =>
    have hmem : Reaches (many p greedy) a b ↔ b ∈ runs p a.before a.rest := by
      constructor
      · rintro ⟨groups, hways⟩
        obtain ⟨b', hb', hpair⟩ := List.mem_map.1 hways
        obtain ⟨-, rfl⟩ := Prod.mk.inj hpair
        cases greedy with
        | true => exact List.mem_reverse.1 hb'
        | false => exact hb'
      · intro hb
        refine ⟨[], List.mem_map.2 ⟨b, ?_, rfl⟩⟩
        cases greedy with
        | true => exact List.mem_reverse.2 hb
        | false => exact hb
    exact hmem.trans mem_runs_iff
  | edge p =>
    constructor
    · rintro ⟨groups, hways⟩
      rw [ways] at hways
      split at hways
      · next hedge =>
        obtain ⟨-, rfl⟩ := Prod.mk.inj (List.mem_singleton.1 hways)
        exact ⟨[], rfl, rfl, rfl, hedge⟩
      · cases hways
    · rintro ⟨m, hrest, hbefore, rfl, hedge⟩
      obtain rfl := heq hrest.symm hbefore
      refine ⟨[], ?_⟩
      rw [ways, if_pos hedge]
      exact List.mem_singleton_self _
  | last => exact absurd h id
  | seq r t ihr iht =>
    rw [reaches_seq]
    constructor
    · rintro ⟨c, hr, ht⟩
      obtain ⟨u, hu, hubefore, hufits⟩ := (ihr h.1).1 hr
      obtain ⟨v, hv, hvbefore, hvfits⟩ := (iht h.2).1 ht
      refine ⟨u ++ v, by rw [hu, hv, List.append_assoc], ?_, u, v, rfl, ?_, ?_⟩
      · rw [hvbefore, hubefore, getLast?_append_or]
      · rw [hv, List.head?_append] at hufits
        exact hufits
      · rw [hubefore] at hvfits
        exact hvfits
    · rintro ⟨m, hrest, hbefore, u, v, rfl, hufits, hvfits⟩
      refine ⟨⟨u.getLast?.or a.before, v ++ b.rest⟩, (ihr h.1).2 ⟨u, ?_, rfl, ?_⟩,
        (iht h.2).2 ⟨v, rfl, ?_, hvfits⟩⟩
      · rw [hrest, List.append_assoc]
      · rw [List.head?_append]
        exact hufits
      · rw [hbefore, getLast?_append_or]
  | alt r t ihr iht =>
    refine reaches_alt.trans ((or_congr (ihr h.1) (iht h.2)).trans ?_)
    constructor
    · rintro (⟨m, hrest, hbefore, hfits⟩ | ⟨m, hrest, hbefore, hfits⟩)
      · exact ⟨m, hrest, hbefore, Or.inl hfits⟩
      · exact ⟨m, hrest, hbefore, Or.inr hfits⟩
    · rintro ⟨m, hrest, hbefore, hfits | hfits⟩
      · exact Or.inl ⟨m, hrest, hbefore, hfits⟩
      · exact Or.inr ⟨m, hrest, hbefore, hfits⟩
  | group r ih =>
    refine Iff.trans ?_ (ih h)
    constructor
    · rintro ⟨groups, hways⟩
      obtain ⟨x, hx, hpair⟩ := List.mem_map.1 hways
      obtain ⟨-, rfl⟩ := Prod.mk.inj hpair
      exact ⟨x.1, hx⟩
    · rintro ⟨groups, hways⟩
      exact ⟨_, List.mem_map.2 ⟨_, hways, rfl⟩⟩

/-- There is no match at a place exactly when nothing there fits. -/
theorem first_eq_none_iff_fits (h : Inner r) {before : Option Char} {s : Text} :
    first r ⟨before, s⟩ = none ↔ ∀ m x, s = m ++ x → ¬Fits r before m x.head? := by
  rw [first_eq_none_iff]
  constructor
  · rintro hnone m x rfl hfits
    exact hnone ⟨m.getLast?.or before, x⟩ ((reaches_iff_fits h).2 ⟨m, rfl, rfl, hfits⟩)
  · intro hnone b hreaches
    obtain ⟨m, hrest, -, hfits⟩ := (reaches_iff_fits h).1 hreaches
    exact hnone m b.rest hrest hfits

/-- Something in the text fits where it stands. -/
def HasMatch (r : Regex) (s : Text) : Prop :=
  ∃ x m y, s = x ++ (m ++ y) ∧ Fits r x.getLast? m y.head?

theorem searchFrom_eq_none_iff_fits (h : Inner r) {before : Option Char} {s : Text} :
    searchFrom r before s = none ↔ ∀ x m y, s = x ++ (m ++ y) → ¬Fits r (x.getLast?.or before) m y.head? := by
  induction s generalizing before with
  | nil =>
    rw [searchFrom, Option.map_eq_none_iff, first_eq_none_iff_fits h]
    constructor
    · intro hnone x m y heq
      obtain ⟨rfl, hmy⟩ := List.append_eq_nil_iff.1 heq.symm
      exact hnone m y hmy.symm
    · exact fun hall m y heq ↦ hall [] m y heq
  | cons c s ih =>
    rw [searchFrom]
    have hcons : (∀ x m y, c :: s = x ++ (m ++ y) → ¬Fits r (x.getLast?.or before) m y.head?) ↔
        first r ⟨before, c :: s⟩ = none ∧
          ∀ x m y, s = x ++ (m ++ y) → ¬Fits r (x.getLast?.or (some c)) m y.head? := by
      rw [first_eq_none_iff_fits h]
      constructor
      · intro hall
        refine ⟨fun m y heq ↦ hall [] m y heq, fun x m y heq ↦ ?_⟩
        have hfits := hall (c :: x) m y (congrArg _ heq)
        rwa [getLast?_cons_or] at hfits
      · rintro ⟨hfirst, hrest⟩ x m y heq
        cases x with
        | nil => exact hfirst m y heq
        | cons d x =>
          obtain ⟨rfl, hs⟩ := List.cons.inj heq
          rw [getLast?_cons_or]
          exact hrest x m y hs
    rw [hcons]
    cases hx : first r ⟨before, c :: s⟩ with
    | some x => exact iff_of_false (by rintro ⟨⟩) fun hboth ↦ by cases hboth.1
    | none => exact ih.trans (and_iff_right rfl).symm

/-- A search finds nothing exactly when there is no match. -/
theorem searchFrom_eq_none_iff_hasMatch (h : Inner r) {s : Text} :
    searchFrom r none s = none ↔ ¬HasMatch r s := by
  rw [searchFrom_eq_none_iff_fits h]
  simp only [HasMatch, not_exists, not_and, Option.or_none]

/-! ### Cutting at the matches -/

/-- Put a text in front of the first fragment. -/
def onto (s : Text) : List Text → List Text
  | [] => [s]
  | q :: qs => (s ++ q) :: qs

/-- The fragments between the matches, behind the characters that are to be skipped. For patterns that do not
match the empty text. -/
def cutFrom (r : Regex) : Option Char → Text → ℕ → List Text
  | _, [], _ => [[]]
  | _, c :: s, skip + 1 => cutFrom r (some c) s skip
  | before, c :: s, 0 =>
    match first r ⟨before, c :: s⟩ with
    | some x => [] :: cutFrom r (some c) s (s.length - x.2.rest.length)
    | none => onto [c] (cutFrom r (some c) s 0)

def cut (r : Regex) (s : Text) : List Text := cutFrom r none s 0

theorem onto_ne_nil (s : Text) (qs : List Text) : onto s qs ≠ [] := by
  cases qs <;> exact List.cons_ne_nil _ _

theorem cutFrom_ne_nil (r : Regex) (before : Option Char) (s : Text) (n : ℕ) : cutFrom r before s n ≠ [] := by
  induction s generalizing before n with
  | nil => exact List.cons_ne_nil _ _
  | cons c s ih =>
    cases n with
    | succ n => exact ih (some c) n
    | zero =>
      rw [cutFrom]
      split
      · exact List.cons_ne_nil _ _
      · exact onto_ne_nil _ _

theorem intercalate_onto (sep s : Text) (qs : List Text) :
    List.intercalate sep (onto s qs) = s ++ List.intercalate sep qs := by
  cases qs with
  | nil => rw [onto, Text.intercalate_cons]; rfl
  | cons q qs => rw [onto, Text.intercalate_cons, Text.intercalate_cons, List.append_assoc]

/-- A substitution by a fixed text joins the fragments. -/
theorem substituteFrom_eq_intercalate {fs : List Filling} {new : Text} (hfill : ∀ m, fill m fs = new)
    (before : Option Char) (s : Text) (n : ℕ) :
    substituteFrom r fs before s n = List.intercalate new (cutFrom r before s n) := by
  induction s generalizing before n with
  | nil => rfl
  | cons c s ih =>
    cases n with
    | succ n => exact ih (some c) n
    | zero =>
      rw [substituteFrom, cutFrom]
      cases first r ⟨before, c :: s⟩ with
      | none => exact (congrArg (c :: ·) (ih (some c) 0)).trans (intercalate_onto new [c] _).symm
      | some x =>
        show fill _ fs ++ substituteFrom r fs (some c) s _ = List.intercalate new ([] :: cutFrom r (some c) s _)
        obtain ⟨q, qs, hqs⟩ := List.exists_cons_of_ne_nil
          (cutFrom_ne_nil r (some c) s (s.length - x.2.rest.length))
        rw [hfill, ih, hqs, Text.intercalate_cons, Text.intercalate_cons, List.flatMap_cons,
          List.nil_append, List.append_assoc]

theorem cutFrom_skip (r : Regex) (before : Option Char) (s t : Text) :
    cutFrom r before (s ++ t) s.length = cutFrom r (s.getLast?.or before) t 0 := by
  induction s generalizing before with
  | nil => rfl
  | cons c s ih =>
    rw [getLast?_cons_or]
    exact ih (some c)

/-- No match begins in the first part. -/
theorem cutFrom_of_none {g t : Text} (before : Option Char)
    (h : ∀ u v, g = u ++ v → v ≠ [] → first r ⟨u.getLast?.or before, v ++ t⟩ = none) :
    cutFrom r before (g ++ t) 0 = onto g (cutFrom r (g.getLast?.or before) t 0) := by
  have hcons : ∀ {c : Char} {g : Text} {qs : List Text}, onto [c] (onto g qs) = onto (c :: g) qs := by
    intro c g qs
    cases qs <;> rfl
  induction g generalizing before with
  | nil =>
    obtain ⟨q, qs, hqs⟩ := List.exists_cons_of_ne_nil (cutFrom_ne_nil r before t 0)
    rw [List.nil_append, List.getLast?_nil, Option.none_or, hqs]
    rfl
  | cons c g ih =>
    have hnone : first r ⟨before, c :: (g ++ t)⟩ = none := h [] (c :: g) rfl (List.cons_ne_nil _ _)
    have hrest := ih (some c) fun u v huv hv ↦ by
      have hfirst := h (c :: u) v (congrArg _ huv) hv
      rwa [getLast?_cons_or] at hfirst
    rw [List.cons_append, cutFrom, hnone, getLast?_cons_or]
    show onto [c] (cutFrom r (some c) (g ++ t) 0) = _
    rw [hrest, hcons]

/-- The first part is a match. -/
theorem cutFrom_of_first {m t : Text} {x : List Text × Place} (before : Option Char) (hm : m ≠ [])
    (h : first r ⟨before, m ++ t⟩ = some x) (hx : x.2.rest = t) :
    cutFrom r before (m ++ t) 0 = [] :: cutFrom r (m.getLast?.or before) t 0 := by
  obtain ⟨c, m, rfl⟩ := List.exists_cons_of_ne_nil hm
  rw [List.cons_append] at h ⊢
  rw [cutFrom, h]
  show [] :: cutFrom r (some c) (m ++ t) ((m ++ t).length - x.2.rest.length) = _
  rw [hx, List.length_append, Nat.add_sub_cancel, cutFrom_skip, getLast?_cons_or]

/-- A text has no match, or a first one. -/
theorem scanFrom (r : Regex) (before : Option Char) (s : Text) :
    (∀ u v, s = u ++ v → v ≠ [] → first r ⟨u.getLast?.or before, v⟩ = none) ∨
    ∃ g m t x, s = g ++ (m ++ t) ∧ first r ⟨g.getLast?.or before, m ++ t⟩ = some x ∧ x.2.rest = t ∧
      ∀ u v, g = u ++ v → v ≠ [] → first r ⟨u.getLast?.or before, v ++ (m ++ t)⟩ = none := by
  induction s generalizing before with
  | nil => exact .inl fun u v huv hv ↦ absurd (List.append_eq_nil_iff.1 huv.symm).2 hv
  | cons c s ih =>
    cases hx : first r ⟨before, c :: s⟩ with
    | some x =>
      obtain ⟨m, hm⟩ := rest_of_reaches (reaches_of_first hx)
      refine .inr ⟨[], m, x.2.rest, x, hm, ?_, rfl, fun u v huv hv ↦
        absurd (List.append_eq_nil_iff.1 huv.symm).2 hv⟩
      rw [← hm]
      exact hx
    | none =>
      rcases ih (some c) with hnone | ⟨g, m, t, x, rfl, hfirst, hrest, hg⟩
      · refine .inl fun u v huv hv ↦ ?_
        cases u with
        | nil =>
          rw [← huv.trans (List.nil_append v)]
          exact hx
        | cons d u =>
          obtain ⟨rfl, hsuv⟩ := List.cons.inj huv
          rw [getLast?_cons_or]
          exact hnone u v hsuv hv
      · refine .inr ⟨c :: g, m, t, x, rfl, ?_, hrest, fun u v huv hv ↦ ?_⟩
        · rw [getLast?_cons_or]
          exact hfirst
        · cases u with
          | nil =>
            rw [← huv.trans (List.nil_append v)]
            exact hx
          | cons d u =>
            obtain ⟨rfl, hguv⟩ := List.cons.inj huv
            rw [getLast?_cons_or]
            exact hg u v hguv hv

/-! ### Fragments -/

/-- A fragment where it stands: no match begins in it, and a match or an end of the text is on both sides. -/
structure IsFragment (r : Regex) (before : Option Char) (s x q y : Text) : Prop where
  eq : s = x ++ (q ++ y)
  none_begins : ∀ u v, q = u ++ v → v ≠ [] → first r ⟨(x ++ u).getLast?.or before, v ++ y⟩ = none
  left : x = [] ∨ ∃ x' m, x = x' ++ m ∧ m ≠ [] ∧ Fits r (x'.getLast?.or before) m (q ++ y).head?
  right : y = [] ∨ ∃ m y', y = m ++ y' ∧ m ≠ [] ∧ Fits r ((x ++ q).getLast?.or before) m y'.head?

/-- The pattern does not match the empty text. -/
def NonEmpty (r : Regex) : Prop := ∀ {before m after}, Fits r before m after → m ≠ []

theorem exists_isFragment (h : Inner r) (hne : NonEmpty r) {before : Option Char} {s q : Text}
    (hq : q ∈ cutFrom r before s 0) : ∃ x y, IsFragment r before s x q y := by
  induction hs : s.length using Nat.strong_induction_on generalizing s before with
  | _ n ih =>
    rcases scanFrom r before s with hnone | ⟨g, m, t, x, rfl, hfirst, hrest, hg⟩
    · have hcut := cutFrom_of_none (t := []) before fun u v huv hv ↦ by
        rw [List.append_nil]
        exact hnone u v huv hv
      rw [List.append_nil] at hcut
      rw [hcut] at hq
      obtain rfl : q = s := (List.mem_singleton.1 hq).trans (List.append_nil s)
      exact ⟨[], [], (List.append_nil q).symm, fun u v huv hv ↦ by
        rw [List.append_nil, List.nil_append]
        exact hnone u v huv hv, Or.inl rfl, Or.inl rfl⟩
    · -- the match fits where it stands
      obtain ⟨m', hm', -, hfits⟩ := (reaches_iff_fits h).1 (reaches_of_first hfirst)
      rw [hrest] at hm' hfits
      obtain rfl : m = m' := List.append_cancel_right hm'
      have hm := hne hfits
      rw [cutFrom_of_none before hg, cutFrom_of_first _ hm hfirst hrest, onto, List.append_nil,
        ← getLast?_append_or] at hq
      rcases List.mem_cons.1 hq with rfl | hq
      · exact ⟨[], m ++ t, rfl, hg, Or.inl rfl, Or.inr ⟨m, t, rfl, hm, hfits⟩⟩
      · have hlt : t.length < n := by
          have hpos := List.length_pos_iff.2 hm
          rw [← hs, List.length_append, List.length_append]
          omega
        obtain ⟨x', y, heq, hbegins, hleft, hright⟩ := ih t.length hlt hq rfl
        have hbefore : ∀ u : Text, (g ++ m ++ u).getLast?.or before =
            u.getLast?.or ((g ++ m).getLast?.or before) := fun u ↦ getLast?_append_or (g ++ m) u before
        refine ⟨g ++ m ++ x', y, ?_, fun u v huv hv ↦ ?_, Or.inr ?_, hright.imp id ?_⟩
        · rw [heq, List.append_assoc, List.append_assoc]
        · rw [List.append_assoc (g ++ m), hbefore]
          exact hbegins u v huv hv
        · rcases hleft with rfl | ⟨x'', m', rfl, hm', hfits'⟩
          · refine ⟨g, m, List.append_nil _, hm, ?_⟩
            rw [heq] at hfits
            exact hfits
          · refine ⟨g ++ m ++ x'', m', (List.append_assoc _ _ _).symm, hm', ?_⟩
            rw [hbefore]
            exact hfits'
        · rintro ⟨m', y', rfl, hm', hfits'⟩
          refine ⟨m', y', rfl, hm', ?_⟩
          rw [List.append_assoc (g ++ m), hbefore]
          exact hfits'

/-- A match in the text, with something on both sides of it. -/
def HasInnerMatch (r : Regex) (s : Text) : Prop :=
  ∃ x m y, x ≠ [] ∧ y ≠ [] ∧ s = x ++ (m ++ y) ∧ Fits r x.getLast? m y.head?

/-- A match at one of the two ends of the text. -/
def Touches (r : Regex) (s : Text) : Prop :=
  ∃ x m y, (x = [] ∨ y = []) ∧ s = x ++ (m ++ y) ∧ Fits r x.getLast? m y.head?

theorem HasInnerMatch.hasMatch {s : Text} (h : HasInnerMatch r s) : HasMatch r s := by
  obtain ⟨x, m, y, -, -, heq, hfits⟩ := h
  exact ⟨x, m, y, heq, hfits⟩

theorem hasMatch_iff_touches_or {s : Text} : HasMatch r s ↔ Touches r s ∨ HasInnerMatch r s := by
  constructor
  · rintro ⟨x, m, y, heq, hfits⟩
    by_cases hends : x = [] ∨ y = []
    · exact Or.inl ⟨x, m, y, hends, heq, hfits⟩
    · obtain ⟨hx, hy⟩ := not_or.1 hends
      exact Or.inr ⟨x, m, y, hx, hy, heq, hfits⟩
  · rintro (⟨x, m, y, -, heq, hfits⟩ | hinner)
    · exact ⟨x, m, y, heq, hfits⟩
    · exact hinner.hasMatch

theorem exists_isFragment_of_mem_cut (h : Inner r) (hne : NonEmpty r) {s q : Text} (hq : q ∈ cut r s) :
    ∃ x y, IsFragment r none s x q y := exists_isFragment h hne hq

/-- What has something on both sides in a fragment stands in the text, too. -/
theorem HasInnerMatch.of_mem_cut (h : Inner r) (hne : NonEmpty r) {s q : Text} (hq : q ∈ cut r s)
    (hinner : HasInnerMatch t q) : HasInnerMatch t s := by
  obtain ⟨x, y, heq, -, -, -⟩ := exists_isFragment_of_mem_cut h hne hq
  obtain ⟨a, m, b, ha, hb, rfl, hfits⟩ := hinner
  refine ⟨x ++ a, m, b ++ y, List.append_ne_nil_of_right_ne_nil x ha, List.append_ne_nil_of_left_ne_nil hb y,
    by rw [heq]; simp only [List.append_assoc], ?_⟩
  rw [List.getLast?_append_of_ne_nil x ha, List.head?_append_of_ne_nil b hb]
  exact hfits

/-! ### Patterns that ask for no edge -/

/-- The pattern does not ask what is beside the match. -/
def NoEdge : Regex → Prop
  | last | edge _ => False
  | seq r t | alt r t => NoEdge r ∧ NoEdge t
  | group r => NoEdge r
  | _ => True

theorem NoEdge.inner (h : NoEdge r) : Inner r := by
  induction r with
  | empty | char | many => trivial
  | edge | last => exact absurd h id
  | seq r t ihr iht => exact ⟨ihr h.1, iht h.2⟩
  | alt r t ihr iht => exact ⟨ihr h.1, iht h.2⟩
  | group r ih => exact ih h

theorem NoEdge.fits (h : NoEdge r) {m : Text} {before before' after after' : Option Char}
    (hfits : Fits r before m after) : Fits r before' m after' := by
  induction r generalizing m before before' after after' with
  | empty | char | many => exact hfits
  | edge | last => exact absurd h id
  | seq r t ihr iht =>
    obtain ⟨u, v, rfl, hu, hv⟩ := hfits
    exact ⟨u, v, rfl, ihr h.1 hu, iht h.2 hv⟩
  | alt r t ihr iht => exact hfits.imp (ihr h.1) (iht h.2)
  | group r ih => exact ih h hfits

/-- What a fragment has, the text has. -/
theorem NoEdge.hasMatch_of_mem_cut (ht : NoEdge t) (h : Inner r) (hne : NonEmpty r) {s q : Text}
    (hq : q ∈ cut r s) (hmatch : HasMatch t q) : HasMatch t s := by
  obtain ⟨x, y, heq, -, -, -⟩ := exists_isFragment_of_mem_cut h hne hq
  obtain ⟨a, m, b, rfl, hfits⟩ := hmatch
  exact ⟨x ++ a, m, b ++ y, by rw [heq]; simp only [List.append_assoc], ht.fits hfits⟩

/-- A match of the pattern itself would have been found where the fragment stands. -/
theorem not_fits_of_isFragment (h : Inner r) (hne : NonEmpty r) {s x q y a m b : Text}
    (hq : IsFragment r none s x q y) (heq : q = a ++ (m ++ b)) :
    ¬Fits r (x ++ a).getLast? m (b ++ y).head? := by
  intro hfits
  have hm : m ++ b ≠ [] := List.append_ne_nil_of_left_ne_nil (hne hfits) b
  have hnone := hq.none_begins a (m ++ b) heq hm
  rw [Option.or_none, List.append_assoc] at hnone
  exact (first_eq_none_iff_fits h).1 hnone m (b ++ y) rfl hfits

/-- A fragment has no match of the pattern it comes from. -/
theorem NoEdge.not_hasMatch_of_mem_cut (h : NoEdge r) (hne : NonEmpty r) {s q : Text} (hq : q ∈ cut r s) :
    ¬HasMatch r q := by
  rintro ⟨a, m, b, heq, hfits⟩
  obtain ⟨x, y, hfragment⟩ := exists_isFragment_of_mem_cut h.inner hne hq
  exact not_fits_of_isFragment h.inner hne hfragment heq (h.fits hfits)

/-! ### Patterns between two edges -/

/-- A pattern between two edges of one class. -/
def bounded (w : Char → Bool) (core : Regex) : Regex := seq (edge w) (seq core (edge w))

variable {w : Char → Bool} {core core' : Regex}

theorem inner_bounded (h : NoEdge core) : Inner (bounded w core) := ⟨trivial, h.inner, trivial⟩

theorem fits_bounded {before after : Option Char} {m : Text} : Fits (bounded w core) before m after ↔
    Fits core before m after ∧ (before.any w != (m.head?.or after).any w) = true ∧
      ((m.getLast?.or before).any w != after.any w) = true := by
  constructor
  · rintro ⟨_, _, rfl, ⟨rfl, hleft⟩, m, _, rfl, hcore, rfl, hright⟩
    rw [List.append_nil] at hleft
    rw [List.nil_append, List.append_nil]
    exact ⟨hcore, hleft, hright⟩
  · rintro ⟨hcore, hleft, hright⟩
    refine ⟨[], m, rfl, ⟨rfl, hleft⟩, m, [], (List.append_nil m).symm, hcore, rfl, hright⟩

theorem nonEmpty_bounded (h : NonEmpty core) : NonEmpty (bounded w core) := fun hfits ↦ h (fits_bounded.1 hfits).1

theorem head?_or_of_ne_nil {m : Text} (h : m ≠ []) (after : Option Char) : m.head?.or after = m.head? := by
  obtain ⟨c, m, rfl⟩ := List.exists_cons_of_ne_nil h
  rfl

theorem getLast?_or_of_ne_nil {m : Text} (h : m ≠ []) (before : Option Char) :
    m.getLast?.or before = m.getLast? := by
  rw [List.getLast?_eq_some_getLast h]
  rfl

/-- The two characters beside a match count by their class only. -/
theorem fits_bounded_congr (h : NoEdge core) (hne : NonEmpty core) {m : Text}
    {before before' after after' : Option Char} (hbefore : before'.any w = before.any w)
    (hafter : after'.any w = after.any w) (hfits : Fits (bounded w core) before m after) :
    Fits (bounded w core) before' m after' := by
  obtain ⟨hcore, hleft, hright⟩ := fits_bounded.1 hfits
  rw [head?_or_of_ne_nil (hne hcore)] at hleft
  rw [getLast?_or_of_ne_nil (hne hcore)] at hright
  refine fits_bounded.2 ⟨h.fits hcore, ?_, ?_⟩
  · rw [head?_or_of_ne_nil (hne hcore), hbefore]
    exact hleft
  · rw [getLast?_or_of_ne_nil (hne hcore), hafter]
    exact hright

/-- A match at the beginning of a fragment begins with a character of the class, so the match before the
fragment does not end with one. -/
theorem any_before_fragment (hne' : NonEmpty core') {s x m b y : Text}
    (hq : IsFragment (bounded w core) none s x (m ++ b) y)
    (hfits : Fits (bounded w core') none m b.head?) : x.getLast?.any w = false := by
  obtain ⟨hcore, hstart, -⟩ := fits_bounded.1 hfits
  have hm := hne' hcore
  rw [head?_or_of_ne_nil hm] at hstart
  have htrue : m.head?.any w = true := (Bool.false_bne _).symm.trans hstart
  rcases hq.left with rfl | ⟨x', m', rfl, hm', hfits'⟩
  · rfl
  · obtain ⟨-, -, hedge⟩ := fits_bounded.1 hfits'
    rw [getLast?_or_of_ne_nil hm', List.append_assoc, List.head?_append_of_ne_nil m hm, htrue,
      Bool.bne_true] at hedge
    rw [List.getLast?_append_of_ne_nil x' hm']
    exact (Bool.not_eq_true' _).mp hedge

/-- The same at the end of a fragment. -/
theorem any_after_fragment (hne' : NonEmpty core') {s x a m y : Text}
    (hq : IsFragment (bounded w core) none s x (a ++ m) y)
    (hfits : Fits (bounded w core') a.getLast? m none) : y.head?.any w = false := by
  obtain ⟨hcore, -, hend⟩ := fits_bounded.1 hfits
  have hm := hne' hcore
  rw [getLast?_or_of_ne_nil hm] at hend
  have htrue : m.getLast?.any w = true := (Bool.bne_false _).symm.trans hend
  rcases hq.right with rfl | ⟨m', y', rfl, hm', hfits'⟩
  · rfl
  · obtain ⟨-, hedge, -⟩ := fits_bounded.1 hfits'
    rw [head?_or_of_ne_nil hm', Option.or_none, ← List.append_assoc, List.getLast?_append_of_ne_nil (x ++ a) hm,
      htrue, Bool.true_bne] at hedge
    rw [List.head?_append_of_ne_nil m' hm']
    exact (Bool.not_eq_true' _).mp hedge

/-- **A fragment between bounded matches** is bounded as a text by itself is: what fits in it alone fits where
it stands. -/
theorem fits_of_isFragment_bounded (h' : NoEdge core') (hne' : NonEmpty core')
    {s x q y a m b : Text} (hq : IsFragment (bounded w core) none s x q y)
    (heq : q = a ++ (m ++ b)) (hfits : Fits (bounded w core') a.getLast? m b.head?) :
    Fits (bounded w core') (x ++ a).getLast? m (b ++ y).head? := by
  subst heq
  refine fits_bounded_congr h' hne' ?_ ?_ hfits
  · cases a with
    | cons c a => rw [List.getLast?_append_of_ne_nil x (List.cons_ne_nil c a)]
    | nil =>
      rw [List.append_nil]
      exact any_before_fragment (m := m) (b := b) hne' hq hfits
  · cases b with
    | cons c b => rw [List.head?_append_of_ne_nil (c :: b) (List.cons_ne_nil c b)]
    | nil =>
      rw [List.append_nil] at hq
      exact any_after_fragment hne' hq hfits

theorem hasMatch_of_mem_cut_bounded (h : NoEdge core) (hne : NonEmpty core) (h' : NoEdge core')
    (hne' : NonEmpty core') {s q : Text} (hq : q ∈ cut (bounded w core) s)
    (hmatch : HasMatch (bounded w core') q) : HasMatch (bounded w core') s := by
  obtain ⟨a, m, b, heq, hfits⟩ := hmatch
  obtain ⟨x, y, hfragment⟩ := exists_isFragment_of_mem_cut (inner_bounded h) (nonEmpty_bounded hne) hq
  exact ⟨x ++ a, m, b ++ y, by rw [hfragment.eq, heq]; simp only [List.append_assoc],
    fits_of_isFragment_bounded h' hne' hfragment heq hfits⟩

theorem not_hasMatch_of_mem_cut_bounded (h : NoEdge core) (hne : NonEmpty core) {s q : Text}
    (hq : q ∈ cut (bounded w core) s) : ¬HasMatch (bounded w core) q := by
  rintro ⟨a, m, b, heq, hfits⟩
  obtain ⟨x, y, hfragment⟩ := exists_isFragment_of_mem_cut (inner_bounded h) (nonEmpty_bounded hne) hq
  exact not_fits_of_isFragment (inner_bounded h) (nonEmpty_bounded hne) hfragment heq
    (fits_of_isFragment_bounded h hne hfragment heq hfits)

/-! ### Counted repetitions -/

/-- The text itself. -/
def text (t : Text) : Regex := t.foldr (fun c r ↦ seq (char (· == c)) r) empty

/-- So many characters of a class. -/
def times (p : Char → Bool) : ℕ → Regex
  | 0 => empty
  | n + 1 => seq (char p) (times p n)

/-- At most so many characters of a class, as many as there are. -/
def upTo (p : Char → Bool) : ℕ → Regex
  | 0 => empty
  | n + 1 => alt (seq (char p) (upTo p n)) empty

/-- So many characters of a class, and as many more as there are up to a bound. -/
def between (p : Char → Bool) (least most : ℕ) : Regex := seq (times p least) (upTo p (most - least))

/-- So many characters of a class, and as many more as there are. -/
def atLeast (p : Char → Bool) (n : ℕ) : Regex := seq (times p n) (many p true)

theorem noEdge_text (u : Text) : NoEdge (text u) := by
  induction u with
  | nil => trivial
  | cons c u ih => exact ⟨trivial, ih⟩

theorem noEdge_times (p : Char → Bool) (n : ℕ) : NoEdge (times p n) := by
  induction n with
  | zero => trivial
  | succ n ih => exact ⟨trivial, ih⟩

theorem noEdge_upTo (p : Char → Bool) (n : ℕ) : NoEdge (upTo p n) := by
  induction n with
  | zero => trivial
  | succ n ih => exact ⟨⟨trivial, ih⟩, trivial⟩

theorem noEdge_between (p : Char → Bool) (least most : ℕ) : NoEdge (between p least most) :=
  ⟨noEdge_times p least, noEdge_upTo p _⟩

theorem noEdge_atLeast (p : Char → Bool) (n : ℕ) : NoEdge (atLeast p n) := ⟨noEdge_times p n, trivial⟩

/-- Every match has a character of the class. -/
def Requires (p : Char → Bool) : Regex → Prop
  | char q => ∀ c, q c = true → p c = true
  | seq r t => Requires p r ∨ Requires p t
  | alt r t => Requires p r ∧ Requires p t
  | group r => Requires p r
  | _ => False

theorem Requires.exists_mem (h : Requires p r) {m : Text} {before after : Option Char}
    (hfits : Fits r before m after) : ∃ c ∈ m, p c = true := by
  induction r generalizing m before after with
  | empty | many | edge | last => exact absurd h id
  | char q =>
    obtain ⟨c, hc, rfl⟩ := hfits
    exact ⟨c, List.mem_singleton_self c, h c hc⟩
  | seq r t ihr iht =>
    obtain ⟨u, v, rfl, hu, hv⟩ := hfits
    rcases h with hr | ht
    · obtain ⟨c, hc, hp⟩ := ihr hr hu
      exact ⟨c, List.mem_append_left v hc, hp⟩
    · obtain ⟨c, hc, hp⟩ := iht ht hv
      exact ⟨c, List.mem_append_right u hc, hp⟩
  | alt r t ihr iht => exact hfits.elim (ihr h.1) (iht h.2)
  | group r ih => exact ih h hfits

theorem Requires.nonEmpty (h : Requires p r) : NonEmpty r := by
  intro before m after hfits
  obtain ⟨c, hc, -⟩ := h.exists_mem hfits
  exact List.ne_nil_of_mem hc

end Regex
