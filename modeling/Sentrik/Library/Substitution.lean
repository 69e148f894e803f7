import Sentrik.Library.Regex

/-!
# Replacing what a pattern matches

The replacement is a text of a small language of its own: a backslash begins an escape, which may stand for a
character, for the text that was matched, or for nothing the reader knows. It is read before anything is
searched, so a replacement that cannot be read fails whatever the text is (`template`).

A replacement is **literal** when it stands for itself. By `literal_of_fill`, a replacement that is not
literal never stands for a text that begins with it.

Patterns here have no groups, and do not match the empty text.
-/

namespace Regex

/-! ### Replacements -/

/-- Which names denote group zero, the whole match. -/
class GroupNames where
  isWhole : Text → Bool

/-- What a replacement is made of. -/
inductive Filling
  | text (t : Text)
  /-- The text that was matched. -/
  | whole

def isOctal (c : Char) : Bool := '0' ≤ c && c ≤ '7'

def octal (ds : Text) : ℕ := ds.foldl (fun n c ↦ 8 * n + (c.toNat - 48)) 0

/-- The characters with an escape of their own. -/
def control (c : Char) : Option Char :=
  match c with
  | 'a' => some '\x07'
  | 'b' => some '\x08'
  | 'f' => some '\x0c'
  | 'n' => some '\n'
  | 'r' => some '\r'
  | 't' => some '\t'
  | 'v' => some '\x0b'
  | '\\' => some '\\'
  | _ => none

section

variable [names : GroupNames]

/-- What an escape stands for, and how many characters behind the backslash belong to it. -/
def escape : Text → Option (Filling × ℕ)
  | [] => none
  | 'g' :: t =>
    match t with
    | '<' :: t =>
      match Text.partition '>' t with
      | (name, some _) => if names.isWhole name then some (.whole, name.length + 3) else none
      | (_, none) => none
    | _ => none
  | c :: t =>
    if c = '0' then
      let ds := (t.take 2).takeWhile isOctal
      some (.text [Char.ofNat (octal ds)], ds.length + 1)
    else if Text.isDigit c then
      -- three octal digits are a character, and other numbers are groups that are not there
      match t with
      | d :: e :: _ =>
        if isOctal c && isOctal d && isOctal e && octal [c, d, e] ≤ 255 then
          some (.text [Char.ofNat (octal [c, d, e])], 3)
        else none
      | _ => none
    else
      match control c with
      | some x => some (.text [x], 1)
      | none => if c.isAlpha then none else some (.text ['\\', c], 1)

/-- Read a replacement, behind the characters that are to be skipped. -/
def templateFrom : Text → ℕ → Option (List Filling)
  | [], _ => some []
  | _ :: t, skip + 1 => templateFrom t skip
  | c :: t, 0 =>
    if c = '\\' then
      match escape t with
      | some (f, n) => (templateFrom t n).map (f :: ·)
      | none => none
    else (templateFrom t 0).map (.text [c] :: ·)

/-- Read a replacement. -/
def template (t : Text) : Option (List Filling) := templateFrom t 0

end

/-- The replacement for a match. -/
def fill (m : Text) (fs : List Filling) : Text :=
  fs.flatMap fun
    | .text t => t
    | .whole => m

/-- Replace the matches, behind the characters that are to be skipped. -/
def substituteFrom (r : Regex) (fs : List Filling) : Option Char → Text → ℕ → Text
  | _, [], _ => []
  | _, c :: t, skip + 1 => substituteFrom r fs (some c) t skip
  | before, c :: t, 0 =>
    match first r ⟨before, c :: t⟩ with
    | some x =>
      fill (taken ⟨before, c :: t⟩ x.2) fs ++ substituteFrom r fs (some c) t (t.length - x.2.rest.length)
    | none => c :: substituteFrom r fs (some c) t 0

def substitute (r : Regex) (fs : List Filling) (t : Text) : Text := substituteFrom r fs none t 0

/-- Replace every match. -/
def sub [GroupNames] (r : Regex) (replacement t : Text) : Option Text :=
  (template replacement).map fun fs ↦ substitute r fs t

/-- The texts of the matches. -/
def matched (r : Regex) (t : Text) : List Text := findall (.group r) t

/-! ### Literal replacements -/

/-- Every backslash stands before a character that it does not escape. -/
def literal : Text → Bool
  | [] => true
  | c :: t =>
    if c = '\\' then t.head?.any (fun d ↦ !(d.isAlphanum || d == '\\')) && literal t else literal t

theorem literal_cons {c : Char} (hc : c ≠ '\\') (t : Text) : literal (c :: t) = literal t := if_neg hc

theorem literal_of_not_mem {t : Text} (h : '\\' ∉ t) : literal t = true := by
  induction t with
  | nil => rfl
  | cons c t ih =>
    rw [List.mem_cons, not_or] at h
    rw [literal_cons (Ne.symm h.1)]
    exact ih h.2

theorem isAlphanum_of_isOctal {c : Char} (h : isOctal c = true) : c.isAlphanum = true := by
  obtain ⟨hlo, hhi⟩ := Bool.and_eq_true_iff.1 h
  have hlo' : '0' ≤ c := of_decide_eq_true hlo
  have hhi' : c ≤ '9' := (of_decide_eq_true hhi : c ≤ '7').trans (by decide)
  have hdigit : c.isDigit = true := Bool.and_eq_true_iff.2 ⟨decide_eq_true hlo', decide_eq_true hhi'⟩
  rw [Char.isAlphanum, hdigit, Bool.or_true]

theorem isAlphanum_of_control {c x : Char} (h : control c = some x) :
    (c.isAlphanum || c == '\\') = true := by
  unfold control at h
  split at h
  all_goals first | rfl | cases h

section

variable [names : GroupNames] {t : Text} {fs : List Filling} {f : Filling} {n : ℕ}

theorem templateFrom_skip (s t : Text) : templateFrom (s ++ t) s.length = template t := by
  induction s with
  | nil => rfl
  | cons c s ih => exact ih

/-- The escapes: the whole match, a character that stays escaped, and a character in another spelling. -/
theorem escape_cases (h : escape t = some (f, n)) : ∃ s rest, t = s ++ rest ∧ s.length = n ∧
    (f = .whole ∨
      (∃ c, s = [c] ∧ f = .text ['\\', c] ∧ (c.isAlphanum || c == '\\') = false) ∨
      ∃ x, f = .text [x] ∧ s ≠ [] ∧ ∀ c ∈ s, (c.isAlphanum || c == '\\') = true) := by
  unfold escape at h
  split at h
  · cases h
  · split at h
    · next t =>
      split at h
      · next name rest hpartition =>
        split at h
        · obtain ⟨rfl, rfl⟩ := Prod.mk.inj (Option.some.inj h)
          have hname : t.takeWhile (· != '>') = name := congrArg Prod.fst hpartition
          have hrest : (t.dropWhile (· != '>')).tail? = some rest := congrArg Prod.snd hpartition
          obtain ⟨d, hdrop⟩ : ∃ d, t.dropWhile (· != '>') = d :: rest := by
            cases hdrop : t.dropWhile (· != '>') with
            | nil => rw [hdrop] at hrest; cases hrest
            | cons d r =>
              rw [hdrop] at hrest
              exact ⟨d, congrArg _ (Option.some.inj hrest)⟩
          have ht : t = name ++ d :: rest := by rw [← hname, ← hdrop, List.takeWhile_append_dropWhile]
          refine ⟨'g' :: '<' :: (name ++ [d]), rest, ?_, ?_, .inl rfl⟩
          · rw [ht, List.cons_append, List.cons_append, List.append_assoc]
            rfl
          · rw [List.length_cons, List.length_cons, List.length_append]
            rfl
        · cases h
      · cases h
    · cases h
  · next c t _ =>
    split at h
    · next hzero =>
      subst hzero
      obtain ⟨rfl, rfl⟩ := Prod.mk.inj (Option.some.inj h)
      have hprefix : (t.take 2).takeWhile isOctal <+: t :=
        (List.takeWhile_prefix _).trans (List.take_prefix 2 t)
      obtain ⟨rest, hrest⟩ := hprefix
      refine ⟨'0' :: (t.take 2).takeWhile isOctal, rest, by rw [List.cons_append, hrest], rfl, .inr (.inr
        ⟨_, rfl, List.cons_ne_nil _ _, List.forall_mem_cons.2 ⟨rfl, fun d hd ↦ ?_⟩⟩)⟩
      rw [isAlphanum_of_isOctal (List.all_eq_true.1 List.all_takeWhile d hd), Bool.true_or]
    split at h
    · split at h
      · next d e rest =>
        split at h
        · next hoctal =>
          obtain ⟨rfl, rfl⟩ := Prod.mk.inj (Option.some.inj h)
          simp only [Bool.and_eq_true] at hoctal
          obtain ⟨⟨⟨hc, hd⟩, he⟩, -⟩ := hoctal
          refine ⟨[c, d, e], rest, rfl, rfl, .inr (.inr ⟨_, rfl, List.cons_ne_nil _ _, ?_⟩)⟩
          rw [List.forall_mem_cons, List.forall_mem_cons, List.forall_mem_singleton]
          rw [isAlphanum_of_isOctal hc, isAlphanum_of_isOctal hd, isAlphanum_of_isOctal he]
          exact ⟨rfl, rfl, rfl⟩
        · cases h
      · cases h
    · next hdigit =>
      split at h
      · next x hcontrol =>
        obtain ⟨rfl, rfl⟩ := Prod.mk.inj (Option.some.inj h)
        refine ⟨[c], t, rfl, rfl, .inr (.inr ⟨x, rfl, List.cons_ne_nil _ _, ?_⟩)⟩
        rw [List.forall_mem_singleton]
        exact isAlphanum_of_control hcontrol
      · next hcontrol =>
        split at h
        · cases h
        · next halpha =>
          obtain ⟨rfl, rfl⟩ := Prod.mk.inj (Option.some.inj h)
          refine ⟨[c], t, rfl, rfl, .inr (.inl ⟨c, rfl, rfl, ?_⟩)⟩
          have hslash : (c == '\\') = false := by
            rw [beq_eq_false_iff_ne]
            rintro rfl
            cases hcontrol
          have hnodigit : c.isDigit = false := Bool.eq_false_iff.2 hdigit
          rw [Char.isAlphanum, Bool.eq_false_iff.2 halpha, hnodigit, hslash]
          rfl

theorem escape_of_other {c : Char} (halnum : c.isAlphanum = false) (hc : c ≠ '\\') :
    escape (c :: t) = some (.text ['\\', c], 1) := by
  obtain ⟨halpha, hdigit⟩ := Bool.or_eq_false_iff.1 halnum
  have hzero : c ≠ '0' := by
    rintro rfl
    cases hdigit
  have hcontrol : control c = none := by
    cases hcontrol : control c with
    | none => rfl
    | some x =>
      have hspelled := isAlphanum_of_control hcontrol
      rw [halnum, beq_eq_false_iff_ne.2 hc] at hspelled
      cases hspelled
  have hdigit' : Text.isDigit c = false := hdigit
  unfold escape
  split
  · next heq => cases heq
  · next heq =>
    obtain ⟨rfl, -⟩ := List.cons.inj heq
    cases halpha
  · next heq =>
    obtain ⟨rfl, rfl⟩ := List.cons.inj heq
    rw [if_neg hzero, hdigit', if_neg Bool.false_ne_true, hcontrol, halpha, if_neg Bool.false_ne_true]

/-- Reading a replacement, part by part. -/
theorem template_cases (h : template t = some fs) :
    (t = [] ∧ fs = []) ∨
    (∃ c t' fs', c ≠ '\\' ∧ t = c :: t' ∧ fs = .text [c] :: fs' ∧ template t' = some fs') ∨
    ∃ s t' f fs', t = '\\' :: (s ++ t') ∧ escape (s ++ t') = some (f, s.length) ∧ fs = f :: fs' ∧
      template t' = some fs' := by
  cases t with
  | nil => exact .inl ⟨rfl, (Option.some.inj h).symm⟩
  | cons c t =>
    rw [template, templateFrom] at h
    split at h
    · next hc =>
      subst hc
      split at h
      · next f n hescape =>
        obtain ⟨fs', hfs', rfl⟩ := Option.map_eq_some_iff.1 h
        obtain ⟨s, t', rfl, rfl, -⟩ := escape_cases hescape
        rw [templateFrom_skip] at hfs'
        exact .inr (.inr ⟨s, t', f, fs', rfl, hescape, rfl, hfs'⟩)
      · cases h
    · next hc =>
      obtain ⟨fs', hfs', rfl⟩ := Option.map_eq_some_iff.1 h
      exact .inr (.inl ⟨c, t, fs', hc, rfl, rfl, hfs'⟩)

/-- **A literal replacement** stands for itself, whatever is matched. -/
theorem fill_of_literal (h : literal t = true) : ∃ fs, template t = some fs ∧ ∀ m, fill m fs = t := by
  induction hn : t.length using Nat.strong_induction_on generalizing t with
  | _ n ih =>
    cases t with
    | nil => exact ⟨[], rfl, fun _ ↦ rfl⟩
    | cons c t =>
      subst hn
      by_cases hc : c = '\\'
      · subst hc
        obtain ⟨hhead, hliteral⟩ := Bool.and_eq_true_iff.1 ((if_pos rfl).symm.trans h)
        cases t with
        | nil => cases hhead
        | cons d t =>
          -- the backslash and the character behind it stay as they are
          have hd : (d.isAlphanum || d == '\\') = false := by simpa using hhead
          obtain ⟨halnum, hslash⟩ := Bool.or_eq_false_iff.1 hd
          have hd' : d ≠ '\\' := beq_eq_false_iff_ne.1 hslash
          rw [literal_cons hd'] at hliteral
          obtain ⟨fs, hfs, hfill⟩ := ih t.length (by simp only [List.length_cons]; omega) hliteral rfl
          refine ⟨.text ['\\', d] :: fs, ?_, fun m ↦ ?_⟩
          · rw [template, templateFrom, if_pos rfl, escape_of_other halnum hd']
            show Option.map _ (template t) = _
            rw [hfs]
            rfl
          · show '\\' :: d :: fill m fs = _
            rw [hfill]
      · rw [literal_cons hc] at h
        obtain ⟨fs, hfs, hfill⟩ := ih t.length (Nat.lt_succ_self _) h rfl
        refine ⟨.text [c] :: fs, ?_, fun m ↦ ?_⟩
        · rw [template, templateFrom, if_neg hc]
          show Option.map _ (template t) = _
          rw [hfs]
          rfl
        · show c :: fill m fs = _
          rw [hfill]

/-- Behind a text without the character the matches begin with, a replacement does not stand for itself. -/
theorem fill_ne {a : Char} (ha : (a.isAlphanum || a == '\\') = false) (m : Text) {w : Text} (hw : w ≠ [])
    (haw : a ∉ w) (y : Text) (h : template t = some fs) : fill (a :: m) fs ≠ w ++ (t ++ y) := by
  have haslash : a ≠ '\\' := beq_eq_false_iff_ne.1 (Bool.or_eq_false_iff.1 ha).2
  induction hn : t.length using Nat.strong_induction_on generalizing t fs w with
  | _ n ih =>
    subst hn
    obtain ⟨x, w, rfl⟩ := List.exists_cons_of_ne_nil hw
    obtain ⟨hax, hw'⟩ := not_or.1 (mt List.mem_cons.2 haw)
    rcases template_cases h with ⟨rfl, rfl⟩ | ⟨c, t', fs', -, rfl, rfl, hfs'⟩ |
      ⟨s, t', f, fs', rfl, hescape, rfl, hfs'⟩
    · exact (List.cons_ne_nil _ _).symm
    · -- the character goes to the end of the text in front
      intro heq
      obtain ⟨rfl, hrest⟩ := List.cons.inj (show c :: fill (a :: m) fs' = x :: _ from heq)
      refine ih t'.length (Nat.lt_succ_self _) (List.append_ne_nil_of_right_ne_nil w (List.cons_ne_nil c []))
        ?_ hfs' rfl (hrest.trans (List.append_cons w c (t' ++ y)))
      rw [List.mem_append, List.mem_singleton, not_or]
      exact ⟨hw', hax⟩
    · have hlt : t'.length < ('\\' :: (s ++ t')).length := by
        rw [List.length_cons, List.length_append]
        omega
      intro heq
      obtain ⟨s', rest, hs, hlength, hkind⟩ := escape_cases hescape
      obtain ⟨rfl, rfl⟩ := List.append_inj hs hlength.symm
      rcases hkind with rfl | ⟨c, rfl, rfl, hc⟩ | ⟨z, rfl, hne, hspelled⟩
      · -- a match begins with the character that is not there
        exact hax (List.cons.inj (show a :: (m ++ fill (a :: m) fs') = x :: _ from heq)).1
      · obtain ⟨rfl, hrest⟩ := List.cons.inj (show '\\' :: c :: fill (a :: m) fs' = x :: _ from heq)
        cases w with
        | nil =>
          obtain ⟨rfl, -⟩ := List.cons.inj hrest
          rw [beq_self_eq_true, Bool.or_true] at hc
          cases hc
        | cons x' w =>
          obtain ⟨rfl, hrest'⟩ := List.cons.inj (show c :: fill (a :: m) fs' = x' :: _ from hrest)
          obtain ⟨hac, hw''⟩ := not_or.1 (mt List.mem_cons.2 hw')
          refine ih t'.length hlt (List.append_ne_nil_of_right_ne_nil w (List.cons_ne_nil '\\' [c])) ?_ hfs' rfl
            (hrest'.trans ?_)
          · rw [List.mem_append, not_or, List.mem_cons, List.mem_singleton, not_or]
            exact ⟨hw'', haslash, hac⟩
          · simp only [List.cons_append, List.append_assoc, List.nil_append, List.append_eq]
      · -- what is left out of the spelling goes to the text in front
        obtain ⟨rfl, hrest⟩ := List.cons.inj (show z :: fill (a :: m) fs' = x :: _ from heq)
        refine ih t'.length hlt (List.append_ne_nil_of_right_ne_nil w (List.cons_ne_nil '\\' s)) ?_ hfs' rfl
          (hrest.trans ?_)
        · rw [List.mem_append, not_or, List.mem_cons, not_or]
          refine ⟨hw', haslash, fun has ↦ ?_⟩
          rw [hspelled a has] at ha
          cases ha
        · simp only [List.cons_append, List.append_assoc, List.append_eq]

/-- **Only a literal replacement** stands for a text that begins with it. -/
theorem literal_of_fill {a : Char} (ha : (a.isAlphanum || a == '\\') = false) {m y : Text}
    (h : template t = some fs) (hfill : fill (a :: m) fs = t ++ y) : literal t = true ∧ y = [] := by
  induction hn : t.length using Nat.strong_induction_on generalizing t fs with
  | _ n ih =>
    subst hn
    rcases template_cases h with ⟨rfl, rfl⟩ | ⟨c, t', fs', hc, rfl, rfl, hfs'⟩ |
      ⟨s, t', f, fs', rfl, hescape, rfl, hfs'⟩
    · exact ⟨rfl, hfill.symm⟩
    · obtain ⟨hliteral, hy⟩ := ih t'.length (Nat.lt_succ_self _) hfs' (List.cons.inj hfill).2 rfl
      exact ⟨(literal_cons hc t').trans hliteral, hy⟩
    · have hlt : t'.length < ('\\' :: (s ++ t')).length := by
        rw [List.length_cons, List.length_append]
        omega
      obtain ⟨s', rest, hs, hlength, hkind⟩ := escape_cases hescape
      obtain ⟨rfl, rfl⟩ := List.append_inj hs hlength.symm
      rcases hkind with rfl | ⟨c, rfl, rfl, hc⟩ | ⟨z, rfl, hne, hspelled⟩
      · have haslash : a = '\\' :=
          (List.cons.inj (show a :: (m ++ fill (a :: m) fs') = '\\' :: _ from hfill)).1
        rw [haslash, beq_self_eq_true, Bool.or_true] at ha
        cases ha
      · have hrest := (List.cons.inj (show '\\' :: c :: fill (a :: m) fs' = '\\' :: c :: _ from hfill)).2
        obtain ⟨hliteral, hy⟩ := ih t'.length hlt hfs' (List.cons.inj hrest).2 rfl
        have hc' : c ≠ '\\' := beq_eq_false_iff_ne.1 (Bool.or_eq_false_iff.1 hc).2
        refine ⟨(if_pos rfl).trans (Bool.and_eq_true_iff.2 ⟨?_, (literal_cons hc' t').trans hliteral⟩), hy⟩
        show (!(c.isAlphanum || c == '\\')) = true
        rw [hc]
        rfl
      · obtain ⟨-, hrest⟩ := List.cons.inj (show z :: fill (a :: m) fs' = '\\' :: _ from hfill)
        refine absurd (hrest.trans (List.append_assoc s t' y)) (fill_ne ha m hne ?_ y hfs')
        intro has
        rw [hspelled a has] at ha
        cases ha

end

/-! ### Replacing -/

section

variable {r : Regex} {fs : List Filling} {a b : Place} {s t : Text}

theorem substituteFrom_skip (r : Regex) (fs : List Filling) (before : Option Char) (s t : Text) :
    ∃ before', substituteFrom r fs before (s ++ t) s.length = substituteFrom r fs before' t 0 := by
  induction s generalizing before with
  | nil => exact ⟨before, rfl⟩
  | cons c s ih => exact ih (some c)

/-- No match begins in the first part. -/
theorem substituteFrom_of_none (fs : List Filling) (before : Option Char)
    (h : ∀ b u, u ≠ [] → u <:+ s → b.rest = u ++ t → first r b = none) :
    ∃ before', substituteFrom r fs before (s ++ t) 0 = s ++ substituteFrom r fs before' t 0 := by
  induction s generalizing before with
  | nil => exact ⟨before, rfl⟩
  | cons c s ih =>
    have hnone : first r ⟨before, c :: (s ++ t)⟩ = none :=
      h _ _ (List.cons_ne_nil c s) List.suffix_rfl rfl
    obtain ⟨before', hs⟩ :=
      ih (some c) fun b u hu hsuffix ↦ h b u hu (hsuffix.trans (List.suffix_cons c s))
    refine ⟨before', ?_⟩
    rw [List.cons_append, substituteFrom, hnone]
    exact congrArg _ hs

/-- The first part is a match. -/
theorem substituteFrom_of_first (fs : List Filling) {x : List Text × Place} (before : Option Char) (hs : s ≠ [])
    (h : first r ⟨before, s ++ t⟩ = some x) (hx : x.2.rest = t) :
    ∃ before', substituteFrom r fs before (s ++ t) 0 = fill s fs ++ substituteFrom r fs before' t 0 := by
  obtain ⟨c, u, rfl⟩ := List.exists_cons_of_ne_nil hs
  have htaken : taken ⟨before, c :: u ++ t⟩ x.2 = c :: u := taken_append _ _ _ (by rw [hx])
  obtain ⟨before', hskip⟩ := substituteFrom_skip r fs (some c) u t
  refine ⟨before', ?_⟩
  rw [List.cons_append] at h htaken ⊢
  rw [substituteFrom, h]
  show fill (taken _ x.2) fs ++ substituteFrom r fs (some c) (u ++ t) ((u ++ t).length - x.2.rest.length) = _
  rw [htaken, hx, List.length_append, Nat.add_sub_cancel, hskip]

/-- What a pattern matches does not depend on what stands before. -/
def Unanchored (r : Regex) : Prop :=
  ∀ before before' t, (first r ⟨before, t⟩).map (fun x ↦ x.2.rest) = (first r ⟨before', t⟩).map fun x ↦ x.2.rest

theorem taken_eq {a a' b b' : Place} (ha : a.rest = a'.rest) (hb : b.rest = b'.rest) :
    taken a b = taken a' b' := by rw [taken, taken, ha, hb]

theorem substituteFrom_before (h : Unanchored r) (fs : List Filling) (before before' : Option Char) (t : Text) :
    substituteFrom r fs before t 0 = substituteFrom r fs before' t 0 := by
  cases t with
  | nil => rfl
  | cons c t =>
    have hrest := h before before' (c :: t)
    rw [substituteFrom, substituteFrom]
    cases hx : first r ⟨before, c :: t⟩ with
    | none =>
      rw [hx] at hrest
      rw [Option.map_eq_none_iff.1 hrest.symm]
    | some x =>
      rw [hx] at hrest
      obtain ⟨y, hy, heq⟩ := Option.map_eq_some_iff.1 hrest.symm
      have htaken : taken ⟨before', c :: t⟩ y.2 = taken ⟨before, c :: t⟩ x.2 := taken_eq rfl heq
      rw [hy]
      show _ = fill (taken _ y.2) fs ++ _
      rw [htaken, heq]

theorem matchedFrom_before (h : Unanchored r) (before before' : Option Char) (t : Text) :
    (findallFrom (.group r) before t 0).map (fun groups ↦ groups.headD []) =
      (findallFrom (.group r) before' t 0).map fun groups ↦ groups.headD [] := by
  cases t with
  | nil => rfl
  | cons c t =>
    have hrest := h before before' (c :: t)
    rw [findallFrom, findallFrom, first_group, first_group]
    cases hx : first r ⟨before, c :: t⟩ with
    | none =>
      rw [hx] at hrest
      rw [Option.map_eq_none_iff.1 hrest.symm]
      rfl
    | some x =>
      rw [hx] at hrest
      obtain ⟨y, hy, heq⟩ := Option.map_eq_some_iff.1 hrest.symm
      have htaken : taken ⟨before', c :: t⟩ y.2 = taken ⟨before, c :: t⟩ x.2 := taken_eq rfl heq
      rw [hy]
      show _ :: _ = taken _ y.2 :: List.map _ (findallFrom _ _ _ (t.length - y.2.rest.length))
      rw [htaken, heq]
      rfl

theorem searchFrom_eq_none_iff (h : Unanchored r) {before : Option Char} :
    searchFrom r before t = none ↔ ∀ u, u <:+ t → first r ⟨none, u⟩ = none := by
  have hnone : ∀ {before t}, first r ⟨before, t⟩ = none ↔ first r ⟨none, t⟩ = none := by
    intro before t
    rw [← Option.map_eq_none_iff (f := fun x ↦ x.2.rest), h before none, Option.map_eq_none_iff]
  induction t generalizing before with
  | nil =>
    rw [searchFrom, Option.map_eq_none_iff, hnone]
    exact ⟨fun hfirst u hu ↦ by rwa [List.suffix_nil.1 hu], fun hall ↦ hall [] List.suffix_rfl⟩
  | cons c t ih =>
    rw [searchFrom]
    cases hx : first r ⟨before, c :: t⟩ with
    | some x =>
      constructor
      · intro hsome
        cases hsome
      · intro hall
        rw [hnone.2 (hall _ List.suffix_rfl)] at hx
        cases hx
    | none =>
      refine ih.trans ⟨fun hall u hu ↦ ?_, fun hall u hu ↦ hall u (hu.trans (List.suffix_cons c t))⟩
      rcases List.suffix_cons_iff.1 hu with rfl | hu
      · exact hnone.1 hx
      · exact hall u hu

/-! ### Patterns whose matches end at a character -/

/-- A match ends at the first `close`, whatever stands before it. -/
structure Delimited (r : Regex) (close : Char) : Prop where
  unanchored : Unanchored r
  closes : ∀ {a x}, first r a = some x → ∃ body, a.rest = body ++ close :: x.2.rest ∧ close ∉ body

variable {close : Char}

theorem substitute_append (h : Delimited r close) (fs : List Filling)
    (hs : ∀ u, u ≠ [] → u <:+ s → first r ⟨none, u ++ t⟩ = none) :
    substitute r fs (s ++ t) = s ++ substitute r fs t := by
  have hnone : ∀ b u, u ≠ [] → u <:+ s → b.rest = u ++ t → first r b = none := by
    rintro ⟨before, rest⟩ u hu hsuffix rfl
    have hrest := h.unanchored before none (u ++ t)
    rw [hs u hu hsuffix] at hrest
    exact Option.map_eq_none_iff.1 hrest
  obtain ⟨before', hsub⟩ := substituteFrom_of_none fs none hnone
  exact hsub.trans (congrArg _ (substituteFrom_before h.unanchored fs before' none t))

theorem matched_append (h : Delimited r close)
    (hs : ∀ u, u ≠ [] → u <:+ s → first r ⟨none, u ++ t⟩ = none) :
    matched r (s ++ t) = matched r t := by
  have hnone : ∀ b u, u ≠ [] → u <:+ s → b.rest = u ++ t → first (.group r) b = none := by
    rintro ⟨before, rest⟩ u hu hsuffix rfl
    have hrest := h.unanchored before none (u ++ t)
    rw [hs u hu hsuffix] at hrest
    rw [first_group, Option.map_eq_none_iff.1 hrest]
    rfl
  obtain ⟨before', hsub⟩ := findallFrom_of_none none hnone
  rw [matched, findall, hsub]
  exact matchedFrom_before h.unanchored before' none t

/-- The text is a match. -/
def IsMatch (r : Regex) (m t : Text) : Prop := ∃ x, first r ⟨none, m ++ t⟩ = some x ∧ x.2.rest = t

theorem IsMatch.exists_body (h : Delimited r close) (hs : IsMatch r s t) :
    ∃ body, s = body ++ [close] ∧ close ∉ body := by
  obtain ⟨x, hx, rfl⟩ := hs
  obtain ⟨body, hbody, hclose⟩ := h.closes hx
  exact ⟨body, List.append_cancel_right (hbody.trans (List.append_cons body close x.2.rest)), hclose⟩

theorem IsMatch.ne_nil (h : Delimited r close) (hs : IsMatch r s t) : s ≠ [] := by
  obtain ⟨body, rfl, -⟩ := hs.exists_body h
  exact List.append_ne_nil_of_right_ne_nil body (List.cons_ne_nil close [])

theorem substitute_match (h : Delimited r close) (fs : List Filling) (hs : IsMatch r s t) :
    substitute r fs (s ++ t) = fill s fs ++ substitute r fs t := by
  obtain ⟨x, hx, hrest⟩ := hs
  obtain ⟨before', hsub⟩ := substituteFrom_of_first fs none (IsMatch.ne_nil h ⟨x, hx, hrest⟩) hx hrest
  exact hsub.trans (congrArg _ (substituteFrom_before h.unanchored fs before' none t))

theorem matched_match (h : Delimited r close) (hs : IsMatch r s t) :
    matched r (s ++ t) = s :: matched r t := by
  obtain ⟨x, hx, hrest⟩ := hs
  have hgroup : first (.group r) ⟨none, s ++ t⟩ = some (taken ⟨none, s ++ t⟩ x.2 :: x.1, x.2) := by
    rw [first_group, hx]
    rfl
  obtain ⟨before', hsub⟩ := findallFrom_of_first none (IsMatch.ne_nil h ⟨x, hx, hrest⟩) hgroup hrest
  rw [matched, findall, hsub, List.map_cons]
  have htaken : taken ⟨none, s ++ t⟩ x.2 = s := taken_append _ _ _ (by rw [hrest])
  rw [htaken]
  exact congrArg _ (matchedFrom_before h.unanchored before' none t)

/-- A text has no match, or a first one. -/
theorem scan_cases (r : Regex) (t : Text) :
    (∀ u, u ≠ [] → u <:+ t → first r ⟨none, u⟩ = none) ∨
    ∃ g m u, t = g ++ (m ++ u) ∧ IsMatch r m u ∧
      ∀ v, v ≠ [] → v <:+ g → first r ⟨none, v ++ (m ++ u)⟩ = none := by
  induction t with
  | nil => exact .inl fun u hu hsuffix ↦ absurd (List.suffix_nil.1 hsuffix) hu
  | cons c t ih =>
    cases hx : first r ⟨none, c :: t⟩ with
    | some x =>
      obtain ⟨s, hs⟩ := rest_of_reaches (reaches_of_first hx)
      refine .inr ⟨[], s, x.2.rest, hs, ⟨x, ?_, rfl⟩, fun v hv hsuffix ↦ absurd (List.suffix_nil.1 hsuffix) hv⟩
      rw [← hs]
      exact hx
    | none =>
      rcases ih with hnone | ⟨g, m, u, rfl, hm, hg⟩
      · refine .inl fun u hu hsuffix ↦ ?_
        rcases List.suffix_cons_iff.1 hsuffix with rfl | hsuffix
        · exact hx
        · exact hnone u hu hsuffix
      · refine .inr ⟨c :: g, m, u, rfl, hm, fun v hv hsuffix ↦ ?_⟩
        rcases List.suffix_cons_iff.1 hsuffix with rfl | hsuffix
        · exact hx
        · exact hg v hv hsuffix

theorem substitute_eq_self (h : Delimited r close) (fs : List Filling)
    (ht : ∀ u, u ≠ [] → u <:+ t → first r ⟨none, u⟩ = none) : substitute r fs t = t := by
  have happend := substitute_append (t := []) h fs fun u hu hsuffix ↦ by
    rw [List.append_nil]
    exact ht u hu hsuffix
  rw [List.append_nil] at happend
  rw [happend]
  exact List.append_nil t

theorem matched_eq_nil (h : Delimited r close)
    (ht : ∀ u, u ≠ [] → u <:+ t → first r ⟨none, u⟩ = none) : matched r t = [] := by
  have happend := matched_append (t := []) h fun u hu hsuffix ↦ by
    rw [List.append_nil]
    exact ht u hu hsuffix
  rw [List.append_nil] at happend
  rw [happend]
  rfl

/-- Two texts agree when they do behind an equal number of closing characters. -/
theorem append_close_inj {u u' v v' : Text} (hcount : u.count close = u'.count close)
    (h : u ++ close :: v = u' ++ close :: v') : u = u' ∧ v = v' := by
  induction u generalizing u' with
  | nil =>
    cases u' with
    | nil => exact ⟨rfl, (List.cons.inj h).2⟩
    | cons c u' =>
      obtain ⟨rfl, -⟩ := List.cons.inj h
      rw [List.count_nil, List.count_cons_self] at hcount
      cases hcount
  | cons c u ih =>
    cases u' with
    | nil =>
      obtain ⟨rfl, -⟩ := List.cons.inj h
      rw [List.count_nil, List.count_cons_self] at hcount
      cases hcount
    | cons c' u' =>
      obtain ⟨rfl, htail⟩ := List.cons.inj h
      have hcount' : u.count close = u'.count close := by
        rw [List.count_cons, List.count_cons] at hcount
        omega
      obtain ⟨rfl, rfl⟩ := ih hcount' htail
      exact ⟨rfl, rfl⟩

variable {replacement : Text}

/-- A match is exchanged for the replacement: what that does to the number of closing characters. -/
theorem count_substitute (h : Delimited r close) (hfill : ∀ m, fill m fs = replacement) (t : Text) :
    (substitute r fs t).count close + (matched r t).length =
      t.count close + (matched r t).length * replacement.count close := by
  induction hn : t.length using Nat.strong_induction_on generalizing t with
  | _ n ih =>
    subst hn
    rcases scan_cases r t with hnone | ⟨g, m, u, rfl, hm, hg⟩
    · rw [substitute_eq_self h fs hnone, matched_eq_nil h hnone, List.length_nil, Nat.zero_mul]
    · obtain ⟨body, rfl, hbody⟩ := hm.exists_body h
      have hlt : u.length < (g ++ (body ++ [close] ++ u)).length := by
        simp only [List.length_append, List.length_singleton]
        omega
      have hu := ih u.length hlt u rfl
      have hcount : body.count close = 0 := List.count_eq_zero.2 hbody
      rw [substitute_append h fs hg, substitute_match h fs hm, matched_append h hg, matched_match h hm, hfill]
      simp only [List.count_append, List.length_cons, List.count_singleton_self, hcount, Nat.add_mul]
      omega

/-- A replacement that is longer than a match moves what follows. -/
theorem eq_nil_of_append_substitute (h : Delimited r close) (hfill : ∀ m, fill m fs = replacement) {body x : Text}
    (hreplacement : replacement = body ++ close :: x) (hbody : close ∉ body)
    (heq : x ++ substitute r fs t = t) : x = [] := by
  induction hn : t.length using Nat.strong_induction_on generalizing t with
  | _ n ih =>
    subst hn
    rcases scan_cases r t with hnone | ⟨g, m, u, rfl, hm, hg⟩
    · rw [substitute_eq_self h fs hnone] at heq
      exact List.append_left_eq_self.1 heq
    · obtain ⟨body', rfl, hbody'⟩ := hm.exists_body h
      have hlt : u.length < (g ++ (body' ++ [close] ++ u)).length := by
        simp only [List.length_append, List.length_singleton]
        omega
      have hzero : body.count close = 0 := List.count_eq_zero.2 hbody
      have hzero' : body'.count close = 0 := List.count_eq_zero.2 hbody'
      -- the replacement has more closing characters than a match as soon as `x` has one
      have hx : x.count close = 0 := by
        have hcount := count_substitute h hfill (g ++ (body' ++ [close] ++ u))
        have hlength := congrArg (List.count close) heq
        have hone : replacement.count close = x.count close + 1 := by
          rw [hreplacement, List.count_append, List.count_cons_self, hzero, Nat.zero_add]
        rw [hone, Nat.mul_succ] at hcount
        rw [List.count_append] at hlength
        omega
      rw [substitute_append h fs hg, substitute_match h fs hm, hfill, hreplacement] at heq
      have hsplit : (x ++ (g ++ body)) ++ close :: (x ++ substitute r fs u) = (g ++ body') ++ close :: u := by
        simpa only [List.append_assoc, List.cons_append, List.nil_append, List.singleton_append] using heq
      have hbefore : (x ++ (g ++ body)).count close = (g ++ body').count close := by
        simp only [List.count_append, hx, hzero, hzero']
        omega
      exact ih u.length hlt (append_close_inj hbefore hsplit).2 rfl

/-- **A text that replacing leaves alone** has no matches but the replacement itself. -/
theorem eq_of_mem_matched (h : Delimited r close) (hfill : ∀ m, fill m fs = replacement)
    (heq : substitute r fs t = t) : ∀ m ∈ matched r t, m = replacement := by
  induction hn : t.length using Nat.strong_induction_on generalizing t with
  | _ n ih =>
    subst hn
    rcases scan_cases r t with hnone | ⟨g, m, u, rfl, hm, hg⟩
    · rw [matched_eq_nil h hnone]
      exact List.forall_mem_nil _
    · obtain ⟨body, rfl, hbody⟩ := hm.exists_body h
      have hlt : u.length < (g ++ (body ++ [close] ++ u)).length := by
        simp only [List.length_append, List.length_singleton]
        omega
      rw [substitute_append h fs hg, substitute_match h fs hm, hfill] at heq
      have heq' : replacement ++ substitute r fs u = body ++ [close] ++ u := List.append_cancel_left heq
      rw [matched_append h hg, matched_match h hm, List.forall_mem_cons]
      rcases List.append_eq_append_iff.1 heq' with ⟨y, hy, hu⟩ | ⟨x, hx, hu⟩
      · -- the match is longer by `y`, and `y` ends at a closing character
        rcases List.eq_nil_or_concat' y with rfl | ⟨y, c, rfl⟩
        · rw [List.append_nil] at hy
          exact ⟨hy, ih u.length hlt hu rfl⟩
        · have hcount := count_substitute h hfill u
          have hclose : body ++ [close] = (replacement ++ y) ++ [c] := by
            rw [hy, List.append_assoc]
          obtain ⟨rfl, hc⟩ := List.append_inj' hclose rfl
          obtain rfl := List.singleton_inj.1 hc
          have hzero : replacement.count close = 0 :=
            List.count_eq_zero.2 fun hmem ↦ hbody (List.mem_append_left y hmem)
          rw [hu, hzero, Nat.mul_zero, List.count_append, List.count_append, List.count_singleton_self] at hcount
          omega
      · have hreplacement : replacement = body ++ close :: x := by
          rw [hx, List.append_assoc]
          rfl
        obtain rfl := eq_nil_of_append_substitute h hfill hreplacement hbody hu.symm
        exact ⟨by rw [hx, List.append_nil], ih u.length hlt hu.symm rfl⟩

theorem substitute_of_matched (h : Delimited r close) (hfill : ∀ m, fill m fs = replacement)
    (hmatched : ∀ m ∈ matched r t, m = replacement) : substitute r fs t = t := by
  induction hn : t.length using Nat.strong_induction_on generalizing t with
  | _ n ih =>
    subst hn
    rcases scan_cases r t with hnone | ⟨g, m, u, rfl, hm, hg⟩
    · exact substitute_eq_self h fs hnone
    · have hlt : u.length < (g ++ (m ++ u)).length := by
        have hpos := List.length_pos_iff.2 (hm.ne_nil h)
        simp only [List.length_append]
        omega
      rw [matched_append h hg, matched_match h hm, List.forall_mem_cons] at hmatched
      rw [substitute_append h fs hg, substitute_match h fs hm, hfill, ← hmatched.1,
        ih u.length hlt hmatched.2 rfl]

end

end Regex
