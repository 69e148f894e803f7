import Mathlib.Algebra.BigOperators.Group.List.Lemmas
import Mathlib.Algebra.Group.Nat.Defs
import Mathlib.Algebra.GroupWithZero.Nat
import Mathlib.Algebra.Order.BigOperators.Group.List
import Mathlib.Algebra.Order.Group.Nat
import Mathlib.Data.List.TakeWhile
import Sentrik.Library.UrlJoin
import Sentrik.Library.UrlText

/-!
# Weights of texts and paths

A text weighs a unit for each character and another one for each capital letter, so a text that comes from
another one by leaving characters out and lowering others weighs less, or is the other one (`Below`). Lists of
texts, one below the other entry by entry, are permutations of each other only if they are equal.

Joining a relative path to a directory takes empty segments and dot segments away: `weight_joinedPath` says that
it adds nothing, and where it takes nothing away.
-/

namespace Text

/-! ### Weight -/

/-- A unit, and another one for a letter that lowering changes. -/
def charWeight (c : Char) : ℕ := if c.toLower = c then 1 else 2

/-- The weight of a text. -/
def weight (t : Text) : ℕ := (t.map charWeight).sum

@[simp] theorem weight_nil : weight [] = 0 := rfl

@[simp] theorem weight_cons (c : Char) (t : Text) : weight (c :: t) = charWeight c + weight t := by
  rw [weight, List.map_cons, List.sum_cons, weight]

@[simp] theorem weight_append (s t : Text) : weight (s ++ t) = weight s + weight t := by
  rw [weight, List.map_append, List.sum_append, weight, weight]

theorem charWeight_pos (c : Char) : 0 < charWeight c := by
  rw [charWeight]
  split <;> decide

theorem weight_eq_zero {t : Text} : weight t = 0 ↔ t = [] := by
  cases t with
  | nil => exact iff_of_true rfl rfl
  | cons c t =>
    have hpos := charWeight_pos c
    rw [weight_cons]
    exact iff_of_false (by omega) (List.cons_ne_nil c t)

theorem weight_pos {t : Text} (h : t ≠ []) : 0 < weight t := Nat.pos_of_ne_zero (mt weight_eq_zero.1 h)

/-! ### Lighter texts -/

/-- What comes from a text by leaving characters out and lowering others: it is lighter, or the text itself. -/
def Below (s t : Text) : Prop := weight s ≤ weight t ∧ (weight s = weight t → s = t)

variable {s s' t t' v : Text}

theorem Below.refl (t : Text) : Below t t := ⟨le_rfl, fun _ ↦ rfl⟩

theorem Below.trans (h : Below s t) (h' : Below t v) : Below s v := by
  obtain ⟨hle, heq⟩ := h
  obtain ⟨hle', heq'⟩ := h'
  refine ⟨hle.trans hle', fun hsame ↦ ?_⟩
  rw [heq (by omega), heq' (by omega)]

theorem Below.append (h : Below s t) (h' : Below s' t') : Below (s ++ s') (t ++ t') := by
  obtain ⟨hle, heq⟩ := h
  obtain ⟨hle', heq'⟩ := h'
  constructor
  · rw [weight_append, weight_append]
    omega
  · intro hsame
    rw [weight_append, weight_append] at hsame
    rw [heq (by omega), heq' (by omega)]

theorem Below.cons (h : Below s t) (c : Char) : Below (c :: s) (c :: t) := (Below.refl [c]).append h

theorem below_of_sublist (h : s.Sublist t) : Below s t := by
  induction h with
  | slnil => exact Below.refl []
  | cons c _ ih =>
    have hpos := charWeight_pos c
    have hle := ih.1
    constructor
    · rw [weight_cons]
      omega
    · intro hsame
      rw [weight_cons] at hsame
      omega
  | cons_cons c _ ih => exact ih.cons c

theorem below_map_toLower (t : Text) : Below (t.map Char.toLower) t := by
  induction t with
  | nil => exact Below.refl []
  | cons c t ih =>
    have hone : Below [c.toLower] [c] := by
      have hlower : charWeight c.toLower = 1 := if_pos (Char.toLower_idem c)
      rw [Below, weight_cons, weight_cons, hlower, charWeight]
      split
      · next hsame => exact ⟨le_rfl, fun _ ↦ by rw [hsame]⟩
      · exact ⟨by decide, fun h ↦ absurd h (by decide)⟩
    exact hone.append ih

/-- Lists of texts, one below the other entry by entry, are permutations of each other only if they are equal. -/
theorem eq_of_perm_of_below {α β : Type*} {l : List α} {key : α → β} {f g : α → Text}
    (h : ∀ a ∈ l, Below (f a) (g a))
    (hperm : (l.map fun a ↦ (key a, f a)).Perm (l.map fun a ↦ (key a, g a))) : ∀ a ∈ l, f a = g a := by
  have hsum : ((l.map fun a ↦ weight (f a))).sum = (l.map fun a ↦ weight (g a)).sum := by
    have hweights := (hperm.map fun x ↦ weight x.2).sum_nat
    rw [List.map_map, List.map_map] at hweights
    exact hweights
  clear hperm
  induction l with
  | nil => exact fun a ha ↦ absurd ha List.not_mem_nil
  | cons b l ih =>
    obtain ⟨hb, hl⟩ := List.forall_mem_cons.1 h
    have hle : (l.map fun a ↦ weight (f a)).sum ≤ (l.map fun a ↦ weight (g a)).sum :=
      List.sum_le_sum fun a ha ↦ (hl a ha).1
    have hle' := hb.1
    rw [List.map_cons, List.map_cons, List.sum_cons, List.sum_cons] at hsum
    exact List.forall_mem_cons.2 ⟨hb.2 (by omega), ih hl (by omega)⟩

/-! ### Parts with a slash between them -/

/-- The weight of the parts, each with a separator. -/
def spanWeight (l : List Text) : ℕ := (l.map fun s ↦ weight s + 1).sum

@[simp] theorem spanWeight_nil : spanWeight [] = 0 := rfl

@[simp] theorem spanWeight_cons (s : Text) (l : List Text) : spanWeight (s :: l) = weight s + 1 + spanWeight l := by
  rw [spanWeight, List.map_cons, List.sum_cons, spanWeight]

@[simp] theorem spanWeight_append (l l' : List Text) : spanWeight (l ++ l') = spanWeight l + spanWeight l' := by
  rw [spanWeight, List.map_append, List.sum_append, spanWeight, spanWeight]

theorem spanWeight_le_of_sublist {l l' : List Text} (h : l.Sublist l') : spanWeight l ≤ spanWeight l' :=
  (h.map _).sum_le_sum fun _ _ ↦ Nat.zero_le _

theorem weight_intercalate {l : List Text} (h : l ≠ []) :
    weight (List.intercalate ['/'] l) + 1 = spanWeight l := by
  obtain ⟨a, l, rfl⟩ := List.exists_cons_of_ne_nil h
  have hrest : weight (l.flatMap (['/'] ++ ·)) = spanWeight l := by
    induction l with
    | nil => rfl
    | cons s l ih =>
      have hslash : weight ['/'] = 1 := by decide
      rw [List.flatMap_cons, weight_append, weight_append, ih (List.cons_ne_nil a l), spanWeight_cons, hslash]
      omega
  rw [intercalate_cons, weight_append, hrest, spanWeight_cons]
  omega

theorem spanWeight_split (t : Text) : spanWeight (split '/' t) = weight t + 1 := by
  rw [← weight_intercalate (split_ne_nil '/' t), intercalate_split]

/-- Taking entries out of a list takes their weight away. -/
theorem spanWeight_filter (p : Text → Bool) (l : List Text) :
    spanWeight (l.filter p) + spanWeight (l.filter fun s ↦ !p s) = spanWeight l := by
  induction l with
  | nil => rfl
  | cons s l ih =>
    cases hs : p s with
    | true =>
      rw [List.filter_cons_of_pos hs, List.filter_cons_of_neg (by rw [hs]; decide), spanWeight_cons, spanWeight_cons]
      omega
    | false =>
      rw [List.filter_cons_of_neg (by rw [hs]; decide), List.filter_cons_of_pos (by rw [hs]; rfl), spanWeight_cons,
        spanWeight_cons]
      omega

theorem spanWeight_eq_zero {l : List Text} : spanWeight l = 0 ↔ l = [] := by
  cases l with
  | nil => exact iff_of_true rfl rfl
  | cons s l =>
    rw [spanWeight_cons]
    exact iff_of_false (by omega) (List.cons_ne_nil s l)

end Text

namespace Url

open Text

/-! ### Dot segments -/

/-- A segment that is resolved. -/
def isDot (seg : Text) : Bool := seg == ['.'] || seg == ['.', '.']

/-- The path as it is put behind a network location. -/
def rooted (path : Text) : Text := if path.head? = some '/' then path else '/' :: path

variable {segments out l l' : List Text}

/-- One segment of the resolution. -/
def resolveStep (out : List Text) (seg : Text) : List Text :=
  if seg = ['.', '.'] then out.dropLast else if seg = ['.'] then out else out ++ [seg]

theorem resolveSegments_eq (segments : List Text) : resolveSegments segments =
    if segments.getLast? = some ['.'] ∨ segments.getLast? = some ['.', '.'] then
      segments.foldl resolveStep [] ++ [[]]
    else segments.foldl resolveStep [] := rfl

/-- Resolving leaves at most what is no dot segment. -/
theorem spanWeight_resolve_le (out segments : List Text) :
    spanWeight (segments.foldl resolveStep out) ≤ spanWeight out + spanWeight (segments.filter fun s ↦ !isDot s) := by
  induction segments generalizing out with
  | nil => exact le_rfl
  | cons seg segments ih =>
    have hrest := ih (resolveStep out seg)
    rw [List.foldl_cons]
    by_cases hup : seg = ['.', '.']
    · have hstep : resolveStep out seg = out.dropLast := if_pos hup
      have hdrop := spanWeight_le_of_sublist out.dropLast_sublist
      rw [hstep] at hrest ⊢
      rw [List.filter_cons_of_neg (by rw [hup]; decide)]
      omega
    by_cases hhere : seg = ['.']
    · have hstep : resolveStep out seg = out := (if_neg hup).trans (if_pos hhere)
      rw [hstep] at hrest ⊢
      rw [List.filter_cons_of_neg (by rw [hhere]; decide)]
      exact hrest
    · have hstep : resolveStep out seg = out ++ [seg] := (if_neg hup).trans (if_neg hhere)
      have hdot : (!isDot seg) = true := by
        rw [isDot, beq_false_of_ne hup, beq_false_of_ne hhere]
        rfl
      rw [hstep, spanWeight_append, spanWeight_cons, spanWeight_nil] at hrest
      rw [hstep, List.filter_cons_of_pos (p := fun s ↦ !isDot s) hdot, spanWeight_cons]
      omega

/-- Without a way up, resolving leaves out the dots. -/
theorem foldl_resolve_of_no_up (h : ['.', '.'] ∉ segments) (out : List Text) :
    segments.foldl resolveStep out = out ++ segments.filter fun s ↦ !isDot s := by
  induction segments generalizing out with
  | nil => exact (List.append_nil out).symm
  | cons seg segments ih =>
    rw [List.mem_cons, not_or] at h
    have hup : seg ≠ ['.', '.'] := Ne.symm h.1
    rw [List.foldl_cons, ih h.2]
    by_cases hhere : seg = ['.']
    · have hstep : resolveStep out seg = out := (if_neg hup).trans (if_pos hhere)
      rw [hstep, List.filter_cons_of_neg (by rw [hhere]; decide)]
    · have hstep : resolveStep out seg = out ++ [seg] := (if_neg hup).trans (if_neg hhere)
      have hdot : (!isDot seg) = true := by
        rw [isDot, beq_false_of_ne hup, beq_false_of_ne hhere]
        rfl
      rw [hstep, List.filter_cons_of_pos (p := fun s ↦ !isDot s) hdot, List.append_assoc]
      rfl

/-- Without dot segments there is nothing to resolve. -/
theorem resolveSegments_of_no_dot (h : ∀ s ∈ segments, isDot s = false) : resolveSegments segments = segments := by
  have hup : ['.', '.'] ∉ segments := fun hmem ↦ absurd (h _ hmem) (by decide)
  have hhere : ['.'] ∉ segments := fun hmem ↦ absurd (h _ hmem) (by decide)
  have hlast : ¬(segments.getLast? = some ['.'] ∨ segments.getLast? = some ['.', '.']) := by
    rintro (hlast | hlast)
    · exact hhere (List.mem_of_getLast? hlast)
    · exact hup (List.mem_of_getLast? hlast)
  rw [resolveSegments_eq, if_neg hlast, foldl_resolve_of_no_up hup, List.nil_append, List.filter_eq_self]
  intro s hs
  rw [h s hs]
  rfl

theorem rooted_intercalate (h : l ≠ []) :
    rooted (List.intercalate ['/'] ([] :: l)) = List.intercalate ['/'] ([] :: l) := by
  obtain ⟨s, l, rfl⟩ := List.exists_cons_of_ne_nil h
  rw [intercalate_cons]
  exact if_pos rfl

theorem weight_rooted_le (path : Text) : weight (rooted path) ≤ weight path + 1 := by
  have hslash : charWeight '/' = 1 := by decide
  rw [rooted]
  split
  · omega
  · rw [weight_cons]
    omega

/-- An entry of a list weighs no more than the list. -/
theorem le_spanWeight_of_mem {s : Text} (h : s ∈ l) : weight s + 1 ≤ spanWeight l := by
  have hone := spanWeight_le_of_sublist (List.singleton_sublist.2 h)
  rw [spanWeight_cons, spanWeight_nil] at hone
  omega

/-- A way up weighs three, and what is put back weighs less. -/
theorem weight_resolve_of_up (hup : ['.', '.'] ∈ segments) :
    weight (rooted (List.intercalate ['/'] (resolveSegments segments))) < weight (List.intercalate ['/'] segments) := by
  have hjoined := weight_intercalate (List.ne_nil_of_mem hup)
  have hsum := spanWeight_filter (fun s ↦ !isDot s) segments
  have hle := spanWeight_resolve_le [] segments
  have hthree : 3 ≤ spanWeight (segments.filter fun s ↦ !!isDot s) :=
    le_spanWeight_of_mem (s := ['.', '.']) (List.mem_filter.2 ⟨hup, rfl⟩)
  have hrooted := weight_rooted_le (List.intercalate ['/'] (resolveSegments segments))
  rw [spanWeight_nil, Nat.zero_add] at hle
  rw [resolveSegments_eq] at hrooted ⊢
  split at hrooted
  · next hlast =>
    have hwhole := weight_intercalate (l := segments.foldl resolveStep [] ++ [[]])
      (List.append_ne_nil_of_right_ne_nil _ (List.cons_ne_nil _ _))
    rw [spanWeight_append, spanWeight_cons, weight_nil, spanWeight_nil] at hwhole
    rw [if_pos hlast]
    omega
  · next hlast =>
    rw [if_neg hlast]
    rcases eq_or_ne (segments.foldl resolveStep []) [] with hnil | hne
    · have hempty : weight (List.intercalate ['/'] ([] : List Text)) = 0 := rfl
      rw [hnil] at hrooted ⊢
      omega
    · have hwhole := weight_intercalate hne
      omega

/-- A dot weighs two, and the path still starts with a slash. -/
theorem weight_resolve_of_here (h : l ≠ []) (hup : ['.', '.'] ∉ [] :: l) (hhere : ['.'] ∈ [] :: l) :
    weight (rooted (List.intercalate ['/'] (resolveSegments ([] :: l)))) <
      weight (List.intercalate ['/'] ([] :: l)) := by
  have hjoined := weight_intercalate (List.cons_ne_nil [] l)
  have hsum := spanWeight_filter (fun s ↦ !isDot s) ([] :: l)
  have htwo : 2 ≤ spanWeight (([] :: l).filter fun s ↦ !!isDot s) :=
    le_spanWeight_of_mem (s := ['.']) (List.mem_filter.2 ⟨hhere, rfl⟩)
  have hfold := foldl_resolve_of_no_up hup []
  rw [List.nil_append, List.filter_cons_of_pos (by decide)] at hfold
  rw [List.filter_cons_of_pos (by decide), spanWeight_cons, weight_nil] at hsum
  rw [resolveSegments_eq, hfold]
  split
  · have hwhole := weight_intercalate (l := [] :: (l.filter (fun s ↦ !isDot s) ++ [[]])) (List.cons_ne_nil _ _)
    rw [spanWeight_cons, spanWeight_append, spanWeight_cons, weight_nil, spanWeight_nil] at hwhole
    rw [List.cons_append, rooted_intercalate (List.append_ne_nil_of_right_ne_nil _ (List.cons_ne_nil _ _))]
    omega
  · next hlast =>
    have hrest : l.filter (fun s ↦ !isDot s) ≠ [] := by
      -- the last segment stays
      have hlastDot : isDot (l.getLast h) = false := by
        by_contra hcon
        rw [Bool.not_eq_false, isDot, Bool.or_eq_true, beq_iff_eq, beq_iff_eq] at hcon
        rw [List.getLast?_cons_of_ne_nil h, List.getLast?_eq_getLast_of_ne_nil h] at hlast
        exact hlast (hcon.imp (congrArg some) (congrArg some))
      exact List.ne_nil_of_mem (List.mem_filter.2 ⟨List.getLast_mem h, by rw [hlastDot]; rfl⟩)
    have hwhole := weight_intercalate (l := [] :: l.filter fun s ↦ !isDot s) (List.cons_ne_nil _ _)
    rw [spanWeight_cons, weight_nil] at hwhole
    rw [rooted_intercalate hrest]
    omega

/-- **Resolving** an absolute path makes it lighter, unless it has no dot segments. -/
theorem weight_resolve (h : l ≠ []) :
    weight (rooted (List.intercalate ['/'] (resolveSegments ([] :: l)))) ≤
        weight (List.intercalate ['/'] ([] :: l)) ∧
      (weight (rooted (List.intercalate ['/'] (resolveSegments ([] :: l)))) =
        weight (List.intercalate ['/'] ([] :: l)) → ∀ s ∈ [] :: l, isDot s = false) := by
  by_cases hup : ['.', '.'] ∈ [] :: l
  · have hlight := weight_resolve_of_up hup
    exact ⟨hlight.le, fun heq ↦ absurd heq hlight.ne⟩
  by_cases hhere : ['.'] ∈ [] :: l
  · have hlight := weight_resolve_of_here h hup hhere
    exact ⟨hlight.le, fun heq ↦ absurd heq hlight.ne⟩
  · have hdots : ∀ s ∈ [] :: l, isDot s = false := by
      intro s hs
      rw [isDot, Bool.or_eq_false_iff, beq_eq_false_iff_ne, beq_eq_false_iff_ne]
      exact ⟨fun heq ↦ hhere (heq ▸ hs), fun heq ↦ hup (heq ▸ hs)⟩
    rw [resolveSegments_of_no_dot hdots, rooted_intercalate h]
    exact ⟨le_rfl, fun _ ↦ hdots⟩

/-! ### Joined paths -/

/-- The joined path, behind a network location. -/
def joinedPath (bpath path : Text) : Text :=
  rooted (List.intercalate ['/'] (resolveSegments (joinSegments bpath path)))

/-- A path without empty segments inside, and without dot segments. -/
def PlainPath (path : Text) : Prop :=
  (∀ s ∈ (split '/' path).tail.dropLast, s ≠ []) ∧ ∀ s ∈ split '/' path, isDot s = false

instance (path : Text) : Decidable (PlainPath path) := inferInstanceAs (Decidable (_ ∧ _))

theorem split_of_absolute {path : Text} (h : path = [] ∨ ∃ t, path = '/' :: t) :
    ∃ l, split '/' path = [] :: l := by
  rcases h with rfl | ⟨t, rfl⟩
  · exact ⟨[], rfl⟩
  · exact ⟨split '/' t, split_cons_self '/' t⟩

/-- A segment that is kept between others. -/
def isFilled (seg : Text) : Bool := seg ≠ []

theorem withoutEmpty_cons_append (s t : Text) (l : List Text) :
    withoutEmpty (s :: (l ++ [t])) = s :: (l.filter isFilled ++ [t]) := by
  rw [withoutEmpty, List.dropLast_concat, List.getLast?_concat]
  rfl

/-- The segments of a joined path are among those of the two paths. -/
theorem joinSegments_absolute {bpath : Text} (h : bpath = [] ∨ ∃ t, bpath = '/' :: t) (path : Text) :
    ∃ l, joinSegments bpath path = [] :: l ∧ l ≠ [] ∧ spanWeight ([] :: l) ≤ weight bpath + weight path + 2 := by
  have hpath := spanWeight_split path
  have hbase := spanWeight_split bpath
  rw [joinSegments]
  by_cases hslash : path.head? = some '/'
  · obtain ⟨t, rfl⟩ := List.head?_eq_some_iff.1 hslash
    refine ⟨split '/' t, ?_, split_ne_nil '/' t, ?_⟩
    · exact (if_pos hslash).trans (split_cons_self '/' t)
    · rw [split_cons_self] at hpath
      omega
  · obtain ⟨l, hl⟩ := split_of_absolute h
    obtain ⟨a, ha, hsub⟩ : ∃ a, (if (split '/' bpath).getLast? = some [] then split '/' bpath
        else (split '/' bpath).dropLast) = [] :: a ∧ ([] :: a).Sublist (split '/' bpath) := by
      split
      · exact ⟨l, hl, hl ▸ List.Sublist.refl _⟩
      · next hlast =>
        rw [hl] at hlast ⊢
        cases l with
        | nil => exact absurd rfl hlast
        | cons s l => exact ⟨(s :: l).dropLast, rfl, (List.dropLast_sublist (s :: l)).cons_cons []⟩
    obtain ⟨r, last, hr⟩ := (List.eq_nil_or_concat' _).resolve_left (split_ne_nil '/' path)
    have hsum := spanWeight_le_of_sublist hsub
    have hkept := spanWeight_le_of_sublist (List.filter_sublist (p := isFilled) (l := a ++ r))
    refine ⟨(a ++ r).filter isFilled ++ [last], ?_, List.append_ne_nil_of_right_ne_nil _ (List.cons_ne_nil _ _), ?_⟩
    · rw [if_neg hslash, ha, hr, List.cons_append, ← List.append_assoc, withoutEmpty_cons_append]
    · rw [hr, spanWeight_append] at hpath
      rw [spanWeight_cons] at hsum ⊢
      rw [spanWeight_append] at hkept ⊢
      omega

/-- Joining two paths adds at most the slash between them. -/
theorem weight_joinedPath_le {bpath : Text} (h : bpath = [] ∨ ∃ t, bpath = '/' :: t) (path : Text) :
    weight (joinedPath bpath path) ≤ weight bpath + weight path + 1 := by
  obtain ⟨l, hl, hne, hsum⟩ := joinSegments_absolute h path
  have hresolve := (weight_resolve hne).1
  have hjoined := weight_intercalate (List.cons_ne_nil [] l)
  rw [joinedPath, hl]
  omega

/-- The segments behind a directory. -/
theorem split_directory {dir : Text} (h : dir = [] ∨ ∃ t, dir = '/' :: t) (path : Text) :
    ∃ l, split '/' dir = [] :: l ∧ split '/' (dir ++ ['/']) = [] :: (l ++ [[]]) ∧
      split '/' (dir ++ '/' :: path) = [] :: (l ++ split '/' path) := by
  obtain ⟨l, hl⟩ := split_of_absolute h
  refine ⟨l, hl, ?_, ?_⟩
  · rw [split_append_cons, hl]
    rfl
  · rw [split_append_cons, hl]
    rfl

/-- The segments of a relative path joined to a directory. -/
theorem joinSegments_directory {dir path : Text} {l r : List Text} {last : Text}
    (hdir : split '/' (dir ++ ['/']) = [] :: (l ++ [[]])) (hpath : split '/' path = r ++ [last])
    (hslash : path.head? ≠ some '/') :
    joinSegments (dir ++ ['/']) path = [] :: ((l ++ r).filter isFilled ++ [last]) := by
  have hlast : ([] :: (l ++ [[]]) : List Text).getLast? = some [] := List.getLast?_concat (l := [] :: l)
  rw [joinSegments, if_neg hslash, hdir, hpath, if_pos hlast, List.cons_append, ← List.append_assoc,
    withoutEmpty_cons_append, List.append_assoc, List.filter_append, List.filter_append, List.filter_append]
  rfl

/-- **Joining a path to a directory** never adds to it, and takes nothing away only where the two make a plain
path. -/
theorem weight_joinedPath {dir : Text} (h : dir = [] ∨ ∃ t, dir = '/' :: t) (path : Text) :
    weight (joinedPath (dir ++ ['/']) path) ≤ weight (dir ++ '/' :: path) ∧
      (weight (joinedPath (dir ++ ['/']) path) = weight (dir ++ '/' :: path) → PlainPath (dir ++ '/' :: path)) := by
  obtain ⟨l, hl, hdir, hwhole⟩ := split_directory h path
  obtain ⟨r, last, hr⟩ := (List.eq_nil_or_concat' _).resolve_left (split_ne_nil '/' path)
  have hslashWeight : charWeight '/' = 1 := by decide
  by_cases hslash : path.head? = some '/'
  · -- the path stands for itself, without the directory
    obtain ⟨t, rfl⟩ := List.head?_eq_some_iff.1 hslash
    have hsegments : joinSegments (dir ++ ['/']) ('/' :: t) = [] :: split '/' t := by
      rw [joinSegments, if_pos hslash, split_cons_self]
    have hresolve := (weight_resolve (split_ne_nil '/' t)).1
    have hsame : List.intercalate ['/'] ([] :: split '/' t) = '/' :: t := by
      rw [← split_cons_self, intercalate_split]
    rw [hsame] at hresolve
    have hlt : weight (joinedPath (dir ++ ['/']) ('/' :: t)) < weight (dir ++ '/' :: '/' :: t) := by
      rw [joinedPath, hsegments, weight_append, weight_cons]
      omega
    exact ⟨hlt.le, fun heq ↦ absurd heq hlt.ne⟩
  have hsegments := joinSegments_directory hdir hr hslash
  have hresolve := weight_resolve (l := (l ++ r).filter isFilled ++ [last])
    (List.append_ne_nil_of_right_ne_nil _ (List.cons_ne_nil _ _))
  have hjoined := weight_intercalate (List.cons_ne_nil [] ((l ++ r).filter isFilled ++ [last]))
  have htext := spanWeight_split (dir ++ '/' :: path)
  have hsum := spanWeight_filter isFilled (l ++ r)
  rw [hwhole, hr, ← List.append_assoc, spanWeight_cons, spanWeight_append] at htext
  rw [spanWeight_cons, spanWeight_append] at hjoined
  rw [joinedPath, hsegments]
  refine ⟨by omega, fun heq ↦ ?_⟩
  have hempty : (l ++ r).filter (fun s ↦ !isFilled s) = [] := spanWeight_eq_zero.1 (by omega)
  have hnone : ∀ s ∈ l ++ r, s ≠ [] := by
    intro s hs
    have hkept := List.filter_eq_nil_iff.1 hempty s hs
    simpa [isFilled] using hkept
  have hkept : (l ++ r).filter isFilled = l ++ r := List.filter_eq_self.2 fun s hs ↦ decide_eq_true (hnone s hs)
  have hdots := hresolve.2 (by omega)
  rw [hkept] at hdots
  rw [PlainPath, hwhole, hr, ← List.append_assoc]
  refine ⟨?_, hdots⟩
  rw [List.tail_cons, List.dropLast_concat]
  exact hnone

/-- A plain path is joined as it stands. -/
theorem joinedPath_of_plain {dir path : Text} (h : dir = [] ∨ ∃ t, dir = '/' :: t)
    (hplain : PlainPath (dir ++ '/' :: path)) : joinedPath (dir ++ ['/']) path = dir ++ '/' :: path := by
  obtain ⟨l, hl, hdir, hwhole⟩ := split_directory h path
  obtain ⟨r, last, hr⟩ := (List.eq_nil_or_concat' _).resolve_left (split_ne_nil '/' path)
  have hplain' := hplain
  rw [PlainPath, hwhole, hr, ← List.append_assoc, List.tail_cons, List.dropLast_concat] at hplain'
  obtain ⟨hnone, hdots⟩ := hplain'
  have hslash : path.head? ≠ some '/' := by
    intro hslash
    obtain ⟨t, rfl⟩ := List.head?_eq_some_iff.1 hslash
    rw [split_cons_self] at hr
    cases r with
    | nil => exact split_ne_nil '/' t (List.cons.inj hr).2
    | cons s r => exact hnone s (List.mem_append_right l List.mem_cons_self) (List.cons.inj hr).1.symm
  have hkept : (l ++ r).filter isFilled = l ++ r := List.filter_eq_self.2 fun s hs ↦ decide_eq_true (hnone s hs)
  have hsegments := joinSegments_directory hdir hr hslash
  have hsame : [] :: (l ++ r ++ [last]) = split '/' (dir ++ '/' :: path) := by
    rw [hwhole, hr, List.append_assoc]
  rw [hkept] at hsegments
  rw [joinedPath, hsegments, resolveSegments_of_no_dot hdots,
    rooted_intercalate (List.append_ne_nil_of_right_ne_nil _ (List.cons_ne_nil _ _)), hsame, intercalate_split]

end Url
