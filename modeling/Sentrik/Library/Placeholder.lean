import Mathlib.Data.List.Infix

/-!
# Placeholders

A template is filled in by replacing one placeholder after the other, everywhere in the text. What has been
filled in is read again by the replacements that follow, so in general their order matters.

It does not where no two opening characters come together outside of the placeholders. Then the
replacements are one substitution (`fill_render`): each placeholder becomes the value of its name, and one
without a value stays as it stands.
-/

namespace Placeholder

variable {α : Type*} [DecidableEq α]

/-! ### Replacing -/

/-- Pass over some characters, and replace from there. -/
def replaceFrom (old new : List α) : List α → ℕ → List α
  | [], _ => []
  | _ :: t, n + 1 => replaceFrom old new t n
  | c :: t, 0 =>
    if old.isPrefixOf (c :: t) then new ++ replaceFrom old new t (old.length - 1)
    else c :: replaceFrom old new t 0

/-- Replace every occurrence of a text that is not empty, from left to right. -/
def replace (old new t : List α) : List α := replaceFrom old new t 0

theorem replaceFrom_skip (old new s t : List α) :
    replaceFrom old new (s ++ t) s.length = replace old new t := by
  induction s with
  | nil => rfl
  | cons c s ih => exact ih

theorem replace_append {old : List α} (hne : old ≠ []) (new t : List α) :
    replace old new (old ++ t) = new ++ replace old new t := by
  obtain ⟨c, s, rfl⟩ := List.exists_cons_of_ne_nil hne
  have hprefix : (c :: s).isPrefixOf (c :: (s ++ t)) = true :=
    List.isPrefixOf_iff_prefix.2 (List.prefix_append (c :: s) t)
  rw [replace, List.cons_append, replaceFrom, if_pos hprefix, List.length_cons, Nat.add_sub_cancel,
    replaceFrom_skip]

theorem replace_cons {old new t : List α} {c : α} (h : ¬old <+: c :: t) :
    replace old new (c :: t) = c :: replace old new t := by
  rw [replace, replaceFrom, if_neg fun hprefix ↦ h (List.isPrefixOf_iff_prefix.1 hprefix), replace]

/-! ### Templates -/

omit [DecidableEq α] in
/-- No two opening characters come together here, or where an opening character follows. -/
def Quiet (opening : α) (t : List α) : Prop := ¬[opening, opening] <:+: t ++ [opening]

instance (opening : α) (t : List α) : Decidable (Quiet opening t) := inferInstanceAs (Decidable (¬_))

/-- A name between double brackets. -/
def hole (opening closing : α) (name : List α) : List α :=
  opening :: opening :: (name ++ [closing, closing])

/-- A part of a template: a text, or a placeholder. -/
inductive Piece (opening closing : α)
  | text (t : List α) (quiet : Quiet opening t)
  | hole (name : List α) (clear : opening ∉ name ∧ closing ∉ name)

variable {opening closing : α}

/-- The text of a part, with the values of some names filled in. -/
def Piece.render (value : List α → Option (List α)) : Piece opening closing → List α
  | .text t _ => t
  | .hole name _ => (value name).getD (Placeholder.hole opening closing name)

/-- The text of a template, with the values of some names filled in. -/
def render (value : List α → Option (List α)) (template : List (Piece opening closing)) : List α :=
  template.flatMap (Piece.render value)

/-- Fill in one value after the other. -/
def fill (opening closing : α) (values : List (List α × List α)) (t : List α) : List α :=
  values.foldl (fun t e ↦ replace (hole opening closing e.1) e.2 t) t

omit [DecidableEq α] in
theorem Quiet.tail {c : α} {t : List α} (h : Quiet opening (c :: t)) : Quiet opening t :=
  fun hinfix ↦ h (List.infix_cons hinfix)

omit [DecidableEq α] in
/-- An opening character is followed by another character. -/
theorem Quiet.next {t : List α} (h : Quiet opening (opening :: t)) : ∃ d t', t = d :: t' ∧ d ≠ opening := by
  cases t with
  | nil => exact absurd (List.infix_refl _) h
  | cons d t' =>
    refine ⟨d, t', rfl, fun hd ↦ h ?_⟩
    rw [hd]
    exact (List.prefix_append [opening, opening] (t' ++ [opening])).isInfix

omit [DecidableEq α] in
theorem quiet_of_notMem {t : List α} (h : opening ∉ t) : Quiet opening t := by
  rintro ⟨s, s', heq⟩
  have hcount : (s ++ [opening, opening] ++ s').Sublist (t ++ [opening]) := heq ▸ List.Sublist.refl _
  have hpair : [opening, opening].Sublist (t ++ [opening]) :=
    ((List.sublist_append_right s _).trans (List.sublist_append_left _ s')).trans hcount
  obtain ⟨u, v, huv, hu, hv⟩ := List.sublist_append_iff.1 hpair
  -- at most one of the two is behind the text
  cases u with
  | nil =>
    have hlength := hv.length_le
    rw [← List.nil_append v, ← huv] at hlength
    exact absurd hlength (Nat.not_succ_le_self 1)
  | cons c u =>
    obtain ⟨rfl, -⟩ := List.cons.inj huv
    exact h (hu.subset List.mem_cons_self)

/-- Nothing is replaced in a quiet text. -/
theorem replace_quiet {t : List α} (h : Quiet opening t) (name new rest : List α) :
    replace (hole opening closing name) new (t ++ rest) =
      t ++ replace (hole opening closing name) new rest := by
  induction t with
  | nil => rfl
  | cons c t ih =>
    rw [List.cons_append, replace_cons, ih h.tail, List.cons_append]
    intro hprefix
    rw [hole, List.cons_prefix_cons] at hprefix
    obtain ⟨rfl, hprefix⟩ := hprefix
    obtain ⟨d, t', rfl, hd⟩ := h.next
    rw [List.cons_append, List.cons_prefix_cons] at hprefix
    exact hd hprefix.1.symm

/-- A placeholder of another name stays. -/
theorem replace_hole {name name' : List α} (hname : opening ∉ name ∧ closing ∉ name)
    (hname' : opening ∉ name' ∧ closing ∉ name') (hbrackets : opening ≠ closing) (hne : name' ≠ name)
    (new rest : List α) :
    replace (hole opening closing name) new (hole opening closing name' ++ rest) =
      hole opening closing name' ++ replace (hole opening closing name) new rest := by
  have hquiet : Quiet opening (opening :: (name' ++ [closing, closing])) := by
    have hclear : opening ∉ name' ++ [closing, closing] := by
      simp [hname'.1, hbrackets]
    intro hinfix
    rw [List.cons_append, List.infix_cons_iff] at hinfix
    rcases hinfix with hprefix | hinfix
    · -- the character after the bracket is no bracket
      rw [List.cons_prefix_cons] at hprefix
      obtain ⟨c, t, ht⟩ : ∃ c t, name' ++ [closing, closing] = c :: t :=
        List.exists_cons_of_ne_nil (by simp)
      rw [ht, List.cons_append, List.cons_prefix_cons] at hprefix
      exact hclear (ht ▸ hprefix.2.1 ▸ List.mem_cons_self)
    · exact quiet_of_notMem hclear hinfix
  have hsplit : hole opening closing name' ++ rest =
      opening :: ((opening :: (name' ++ [closing, closing])) ++ rest) := rfl
  rw [hsplit, replace_cons, replace_quiet hquiet]
  · rfl
  intro hprefix
  rw [hole, List.cons_append, List.cons_prefix_cons, List.cons_prefix_cons] at hprefix
  -- both names end at the first closing bracket
  obtain ⟨t, ht⟩ := hprefix.2.2
  rw [List.append_assoc, List.append_assoc, List.cons_append, List.cons_append] at ht
  have hends : ∀ {u v w x : List α}, closing ∉ u → closing ∉ v → u ++ closing :: w = v ++ closing :: x →
      u = v := by
    intro u v w x hu hv heq
    have htake := congrArg (List.takeWhile (fun c ↦ decide (c ≠ closing))) heq
    have hkeep : ∀ {u w : List α}, closing ∉ u →
        (u ++ closing :: w).takeWhile (fun c ↦ decide (c ≠ closing)) = u := by
      intro u w hu
      rw [List.takeWhile_append_of_pos fun c hc ↦ decide_eq_true (ne_of_mem_of_not_mem hc hu)]
      simp
    rwa [hkeep hu, hkeep hv] at htake
  exact hne (hends hname.2 hname'.2 ht).symm

/-- **One replacement** gives its name a value, unless it has one. -/
theorem replace_render {value : List α → Option (List α)} (hvalue : ∀ n v, value n = some v → Quiet opening v)
    {name : List α} (hname : opening ∉ name ∧ closing ∉ name) (hbrackets : opening ≠ closing) (new : List α)
    (template : List (Piece opening closing)) :
    replace (hole opening closing name) new (render value template) =
      render (fun n ↦ (value n).or (if n = name then some new else none)) template := by
  induction template with
  | nil => rfl
  | cons piece template ih =>
    rw [render, render, List.flatMap_cons, List.flatMap_cons, ← render, ← render, ← ih]
    cases piece with
    | text t quiet => exact replace_quiet quiet name new _
    | hole n clear =>
      rw [Piece.render, Piece.render]
      cases hn : value n with
      | some v => exact replace_quiet (hvalue n v hn) name new _
      | none =>
        by_cases hsame : n = name
        · rw [hsame, if_pos rfl]
          exact replace_append (List.cons_ne_nil _ _) new _
        · rw [if_neg hsame]
          exact replace_hole hname clear hbrackets hsame new _

/-- **Filling in one value after the other is one substitution**: of the values of a name the first counts. -/
theorem fill_render {values : List (List α × List α)}
    (hvalues : ∀ e ∈ values, (opening ∉ e.1 ∧ closing ∉ e.1) ∧ Quiet opening e.2)
    (hbrackets : opening ≠ closing) (template : List (Piece opening closing)) :
    fill opening closing values (render (fun _ ↦ none) template) =
      render (fun n ↦ values.lookup n) template := by
  suffices h : ∀ value : List α → Option (List α), (∀ n v, value n = some v → Quiet opening v) →
      fill opening closing values (render value template) =
        render (fun n ↦ (value n).or (values.lookup n)) template from
    h _ fun _ _ hnone ↦ nomatch hnone
  induction values with
  | nil =>
    intro value _
    have hnone : ∀ n : List α, (value n).or (List.lookup n []) = value n := fun n ↦ Option.or_none
    simp only [hnone]
    rfl
  | cons e values ih =>
    obtain ⟨⟨hname, hquiet⟩, hrest⟩ := List.forall_mem_cons.1 hvalues
    intro value hvalue
    have hstep : fill opening closing (e :: values) (render value template) =
        fill opening closing values (replace (hole opening closing e.1) e.2 (render value template)) := rfl
    rw [hstep, replace_render hvalue hname hbrackets, ih hrest]
    · congr 1
      funext n
      rw [Option.or_assoc, List.lookup_cons]
      by_cases hn : n = e.1
      · rw [if_pos hn, hn, beq_self_eq_true]
        rfl
      · rw [if_neg hn, beq_false_of_ne hn]
        rfl
    · intro n v hv
      rcases Option.or_eq_some_iff.1 hv with hv | ⟨-, hv⟩
      · exact hvalue n v hv
      · split at hv
        · exact Option.some.inj hv ▸ hquiet
        · cases hv

end Placeholder
