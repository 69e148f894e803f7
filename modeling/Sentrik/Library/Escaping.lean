import Sentrik.Library.UrlText

/-!
# Fields with escapes

Text is read up to a separator, where a backslash takes away the meaning of the character behind it. What is
read of a field that was written without escapes is the field exactly when it has neither a backslash nor a
separator (`isPrefix_upTo_iff`): a separator ends it early, and a backslash either changes a character or,
in front of another one, is lost.
-/

namespace Escaping

/-- Up to the first separator that is not escaped: what is read before it, and what follows it, if there is
one. An escaped character is read as `un` of it. -/
def upTo (un : Char → Char) (sep : Char) : Text → Text × Option Text
  | [] => ([], none)
  | [c] => if c = sep then ([], some []) else ([c], none)
  | c :: d :: x =>
    if c = '\\' then (un d :: (upTo un sep x).1, (upTo un sep x).2)
    else if c = sep then ([], some (d :: x))
    else (c :: (upTo un sep (d :: x)).1, (upTo un sep (d :: x)).2)

variable {un : Char → Char} {sep : Char}

theorem upTo_escape (d : Char) (x : Text) :
    upTo un sep ('\\' :: d :: x) = (un d :: (upTo un sep x).1, (upTo un sep x).2) := by
  rw [upTo, if_pos rfl]

theorem upTo_sep (hsep : sep ≠ '\\') (x : Text) : upTo un sep (sep :: x) = ([], some x) := by
  cases x with
  | nil => rw [upTo, if_pos rfl]
  | cons d x => rw [upTo, if_neg hsep, if_pos rfl]

theorem upTo_plain {c : Char} (hback : c ≠ '\\') (hc : c ≠ sep) (x : Text) :
    upTo un sep (c :: x) = (c :: (upTo un sep x).1, (upTo un sep x).2) := by
  cases x with
  | nil => exact if_neg hc
  | cons d x => rw [upTo, if_neg hback, if_neg hc]

/-- What follows is shorter. -/
theorem length_rest_lt {x rest : Text} (h : (upTo un sep x).2 = some rest) : rest.length < x.length := by
  induction x using upTo.induct with
  | sep => exact sep
  | case1 => cases h
  | case2 =>
    rw [upTo, if_pos rfl] at h
    cases h
    exact Nat.succ_pos _
  | case3 c hc =>
    rw [upTo, if_neg hc] at h
    cases h
  | case4 d x ih =>
    rw [upTo, if_pos rfl] at h
    have hlt := ih h
    rw [List.length_cons, List.length_cons]
    omega
  | case5 d x hback =>
    rw [upTo, if_neg hback, if_pos rfl] at h
    cases h
    exact Nat.lt_succ_self _
  | case6 c d x hback hc ih =>
    rw [upTo, if_neg hback, if_neg hc] at h
    exact (ih h).trans (Nat.lt_succ_self _)

/-- Neither backslashes nor separators. -/
def Clean (sep : Char) (v : Text) : Prop := ∀ c ∈ v, c ≠ '\\' ∧ c ≠ sep

theorem Clean.of_cons {c : Char} {v : Text} (h : Clean sep (c :: v)) : Clean sep v :=
  fun d hd ↦ h d (List.mem_cons_of_mem c hd)

/-- A clean field is read as it stands. -/
theorem upTo_append {v : Text} (h : Clean sep v) (x : Text) :
    upTo un sep (v ++ x) = (v ++ (upTo un sep x).1, (upTo un sep x).2) := by
  induction v with
  | nil => rfl
  | cons c v ih =>
    obtain ⟨hback, hc⟩ := h c List.mem_cons_self
    rw [List.cons_append, upTo_plain hback hc, ih h.of_cons]
    rfl

/-- A field behind more backslashes than are written is not read. -/
theorem not_backslashes_isPrefix (hun : ∀ d, un d = '\\' → d = '\\') (hsep : sep ≠ '\\') {stop : Char}
    (hstop : stop ≠ '\\') (r y : Text) {k : ℕ} (hk : 0 < k) :
    ¬(List.replicate k '\\' ++ r <+: (upTo un sep (r ++ stop :: y)).1) := by
  obtain ⟨k, rfl⟩ := Nat.exists_eq_add_of_lt hk
  rw [Nat.zero_add]
  -- what is read must begin with a backslash
  intro h
  induction hr : r.length using Nat.strong_induction_on generalizing r k with
  | _ n ih =>
    rw [List.replicate_succ, List.cons_append] at h
    have hfirst : ∀ (c : Char) (x : Text), c ≠ '\\' → r ++ stop :: y = c :: x → False := by
      intro c x hc hx
      rw [hx] at h
      by_cases hcs : c = sep
      · rw [hcs, upTo_sep hsep] at h
        exact List.cons_ne_nil _ _ (List.prefix_nil.1 h)
      · rw [upTo_plain hc hcs] at h
        exact hc (List.cons_prefix_cons.1 h).1.symm
    cases r with
    | nil => exact hfirst stop y hstop rfl
    | cons c r =>
      by_cases hc : c = '\\'
      · subst hc
        cases r with
        | nil =>
          rw [List.cons_append, List.nil_append, upTo_escape] at h
          exact hstop (hun stop (List.cons_prefix_cons.1 h).1.symm)
        | cons d r =>
          rw [List.cons_append, List.cons_append, upTo_escape] at h
          obtain ⟨hd, hrest⟩ := List.cons_prefix_cons.1 h
          obtain rfl := hun d hd.symm
          -- two more backslashes are expected, and one of them was used up
          have hmore : List.replicate k '\\' ++ '\\' :: '\\' :: r =
              List.replicate (k + 1 + 1) '\\' ++ r := by
            rw [List.replicate_succ', List.replicate_succ', List.append_assoc, List.append_assoc]
            rfl
          rw [hmore] at hrest
          refine ih r.length ?_ r (k + 1) (Nat.succ_pos _) hrest rfl
          rw [← hr, List.length_cons, List.length_cons]
          omega
      · exact hfirst c _ hc rfl

/-- A field is read, followed by anything, exactly when it is clean. -/
theorem isPrefix_upTo_iff (hun : ∀ d, un d = '\\' → d = '\\') (hsep : sep ≠ '\\') {stop : Char}
    (hstop : stop ≠ '\\') (v y : Text) :
    v <+: (upTo un sep (v ++ stop :: y)).1 ↔ Clean sep v := by
  constructor
  · intro h
    induction v with
    | nil => exact fun c hc ↦ absurd hc List.not_mem_nil
    | cons c v ih =>
      have hback : c ≠ '\\' := by
        rintro rfl
        cases v with
        | nil =>
          rw [List.cons_append, List.nil_append, upTo_escape] at h
          exact hstop (hun stop (List.cons_prefix_cons.1 h).1.symm)
        | cons d v =>
          rw [List.cons_append, List.cons_append, upTo_escape] at h
          obtain ⟨hd, hrest⟩ := List.cons_prefix_cons.1 h
          obtain rfl := hun d hd.symm
          exact not_backslashes_isPrefix hun hsep hstop v y Nat.one_pos hrest
      have hc : c ≠ sep := by
        rintro rfl
        rw [List.cons_append, upTo_sep hsep] at h
        exact List.cons_ne_nil _ _ (List.prefix_nil.1 h)
      rw [List.cons_append, upTo_plain hback hc] at h
      intro d hd
      rcases List.mem_cons.1 hd with rfl | hd
      · exact ⟨hback, hc⟩
      · exact ih (List.cons_prefix_cons.1 h).2 d hd
  · intro h
    rw [upTo_append h]
    exact List.prefix_append _ _

end Escaping
