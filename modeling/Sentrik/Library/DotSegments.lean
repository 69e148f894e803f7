import Sentrik.Library.Text

/-!
# Removal of dot segments

The path algorithm of RFC 3986, section 5.2.4: an input buffer is consumed segment by segment, `.`
is dropped, `..` also takes back the last segment of the output buffer, everything else is moved to
the output.

The output buffer is kept reversed, so "the last segment and its preceding slash" is a prefix. The
iteration carries a fuel that covers the input (each round shortens it).

`removeDotSegments_eq_self_iff` says what the algorithm leaves alone: on an absolute path, exactly
the paths without a `.` or `..` segment. Both directions come from one length count — a round that
removes a dot segment loses characters, and no later round wins them back.
-/

namespace DotSegments

/-- The input up to the next slash. -/
def firstSegment (t : Text) : Text := t.takeWhile (· != '/')

/-- The input from the next slash on. -/
def afterSegment (t : Text) : Text := t.dropWhile (· != '/')

/-- A complete `.` or `..` segment. -/
def IsDot (seg : Text) : Prop := seg = ['.'] ∨ seg = ['.', '.']

instance (seg : Text) : Decidable (IsDot seg) := inferInstanceAs (Decidable (_ ∨ _))

/-- Remove the last segment and its preceding slash from the (reversed) output buffer. -/
def popSegment (out : Text) : Text := (out.dropWhile (· != '/')).tail

/-- One round of the algorithm, on the input and the reversed output. -/
def step : Text → Text → Text × Text
  | '/' :: t, out =>
    if firstSegment t = ['.'] then ('/' :: (afterSegment t).tail, out)
    else if firstSegment t = ['.', '.'] then ('/' :: (afterSegment t).tail, popSegment out)
    else (afterSegment t, ('/' :: firstSegment t).reverse ++ out)
  | t, out =>
    if IsDot (firstSegment t) then ((afterSegment t).tail, out)
    else (afterSegment t, (firstSegment t).reverse ++ out)

/-- The rounds, with fuel. -/
def removeAux : ℕ → Text → Text → Text
  | 0, _, out => out.reverse
  | _ + 1, [], out => out.reverse
  | n + 1, c :: t, out => removeAux n (step (c :: t) out).1 (step (c :: t) out).2

/-- **RFC 3986, 5.2.4.** -/
def removeDotSegments (path : Text) : Text := removeAux (path.length + 1) path []

/-! ### What one round does -/

theorem firstSegment_append_afterSegment (t : Text) : firstSegment t ++ afterSegment t = t :=
  List.takeWhile_append_dropWhile

theorem length_firstSegment_add (t : Text) :
    (firstSegment t).length + (afterSegment t).length = t.length := by
  rw [← List.length_append, firstSegment_append_afterSegment]

theorem popSegment_length_le (out : Text) : (popSegment out).length ≤ out.length := by
  have h := (List.dropWhile_suffix (l := out) (· != '/')).length_le
  rw [popSegment, List.length_tail]
  omega

/-- What remains after a segment is empty or starts with a slash. -/
theorem afterSegment_eq_nil_or (t : Text) : afterSegment t = [] ∨ ∃ r, afterSegment t = '/' :: r := by
  rcases h : afterSegment t with - | ⟨c, r⟩
  · exact Or.inl rfl
  · have hc := List.head?_dropWhile_not (· != '/') t
    rw [show t.dropWhile (· != '/') = c :: r from h] at hc
    have hc' : c = '/' := by simpa using hc
    exact Or.inr ⟨r, by rw [hc']⟩

theorem length_pos_of_isDot {seg : Text} (h : IsDot seg) : 0 < seg.length := by
  rcases h with rfl | rfl <;> decide

/-- A round on an absolute input, with the two dot cases joined. -/
theorem step_slash (t out : Text) :
    (¬IsDot (firstSegment t) ∧
        step ('/' :: t) out = (afterSegment t, ('/' :: firstSegment t).reverse ++ out)) ∨
      (IsDot (firstSegment t) ∧ ∃ out', out'.length ≤ out.length ∧
        step ('/' :: t) out = ('/' :: (afterSegment t).tail, out')) := by
  by_cases h₁ : firstSegment t = ['.']
  · exact Or.inr ⟨Or.inl h₁, out, le_rfl, by simp only [step, h₁, if_true]⟩
  by_cases h₂ : firstSegment t = ['.', '.']
  · refine Or.inr ⟨Or.inr h₂, popSegment out, popSegment_length_le out, ?_⟩
    rw [step, if_neg h₁, if_pos h₂]
  · exact Or.inl ⟨not_or.2 ⟨h₁, h₂⟩, by simp only [step, h₁, h₂, if_false]⟩

/-- A round shortens the input, and input and output together never grow. -/
theorem step_length {c : Char} {t out : Text} :
    (step (c :: t) out).1.length < (c :: t).length ∧
      (step (c :: t) out).1.length + (step (c :: t) out).2.length ≤ (c :: t).length + out.length := by
  have hlen := length_firstSegment_add t
  by_cases hc : c = '/'
  · subst hc
    rcases step_slash t out with ⟨-, h⟩ | ⟨hdot, out', hout, h⟩ <;> rw [h]
    · simp only [List.length_append, List.length_reverse, List.length_cons]
      omega
    · have := length_pos_of_isDot hdot
      simp only [List.length_cons, List.length_tail]
      omega
  · have hstep : step (c :: t) out =
        if IsDot (firstSegment (c :: t)) then ((afterSegment (c :: t)).tail, out)
        else (afterSegment (c :: t), (firstSegment (c :: t)).reverse ++ out) :=
      step.eq_2 _ _ fun u hu ↦ hc (List.cons.inj hu).1
    have hfirst : 0 < (firstSegment (c :: t)).length := by
      rw [firstSegment, List.takeWhile_cons_of_pos (by simpa using hc)]
      exact Nat.succ_pos _
    have hlen' := length_firstSegment_add (c :: t)
    rw [hstep]
    split <;>
      simp only [List.length_append, List.length_reverse, List.length_tail, List.length_cons]
        at hlen' ⊢ <;> omega

@[simp] theorem removeAux_nil (n : ℕ) (out : Text) : removeAux n [] out = out.reverse := by
  cases n <;> rfl

/-! ### Length -/

theorem length_removeAux_le (n : ℕ) (t out : Text) :
    (removeAux n t out).length ≤ t.length + out.length := by
  induction n generalizing t out with
  | zero => simp [removeAux]
  | succ n ih =>
    cases t with
    | nil => simp [removeAux]
    | cons c t => exact (ih _ _).trans step_length.2

/-- **Removal never lengthens a path.** -/
theorem length_removeDotSegments_le (path : Text) :
    (removeDotSegments path).length ≤ path.length :=
  length_removeAux_le _ _ _

/-! ### What is left alone -/

/-- The segments of a text: the one before the next slash, then those after it. -/
theorem split_slash_eq (t : Text) :
    Text.split '/' t = firstSegment t ::
      match afterSegment t with
      | [] => []
      | _ :: r => Text.split '/' r := by
  induction t with
  | nil => rfl
  | cons c t ih =>
    by_cases hc : c = '/'
    · subst hc
      rfl
    · have hfirst : firstSegment (c :: t) = c :: firstSegment t :=
        List.takeWhile_cons_of_pos (by simpa using hc)
      have hafter : afterSegment (c :: t) = afterSegment t :=
        List.dropWhile_cons_of_pos (by simpa using hc)
      rw [Text.split, if_neg hc, ih, hfirst, hafter]

/-- Without dot segments the rounds move the input to the output unchanged; with one they lose
characters. -/
theorem removeAux_slash (n : ℕ) (t out : Text) (hn : t.length + 2 ≤ n) :
    ((∀ seg ∈ Text.split '/' t, ¬IsDot seg) →
        removeAux n ('/' :: t) out = out.reverse ++ '/' :: t) ∧
      ((∃ seg ∈ Text.split '/' t, IsDot seg) →
        (removeAux n ('/' :: t) out).length < t.length + 1 + out.length) := by
  induction n generalizing t out with
  | zero => omega
  | succ n ih =>
    have hlen := length_firstSegment_add t
    have happ := firstSegment_append_afterSegment t
    rw [split_slash_eq]
    rcases step_slash t out with ⟨hdot, h⟩ | ⟨hdot, out', hout, h⟩
    · -- the first segment moves; the rest starts at the next slash
      have hround : removeAux (n + 1) ('/' :: t) out =
          removeAux n (afterSegment t) (('/' :: firstSegment t).reverse ++ out) := by
        rw [removeAux, h]
      rw [hround]
      rcases afterSegment_eq_nil_or t with hr | ⟨r, hr⟩
      · rw [hr, List.append_nil] at happ
        have hend : removeAux n (afterSegment t) (('/' :: firstSegment t).reverse ++ out) =
            out.reverse ++ '/' :: t := by
          rw [hr, removeAux_nil, List.reverse_append, List.reverse_reverse, happ]
        rw [hr] at hend ⊢
        refine ⟨fun _ ↦ hend, fun ⟨seg, hseg, hd⟩ ↦ ?_⟩
        rw [List.mem_singleton.1 hseg] at hd
        exact absurd hd hdot
      · rw [hr] at hlen happ ⊢
        rw [List.length_cons] at hlen
        obtain ⟨hkeep, hlose⟩ := ih r (('/' :: firstSegment t).reverse ++ out) (by omega)
        refine ⟨fun hall ↦ ?_, fun ⟨seg, hseg, hd⟩ ↦ ?_⟩
        · rw [hkeep fun seg hseg ↦ hall seg (List.mem_cons_of_mem _ hseg), List.reverse_append,
            List.reverse_reverse, List.append_assoc, List.cons_append, happ]
        · rcases List.mem_cons.1 hseg with rfl | hseg
          · exact absurd hd hdot
          · have := hlose ⟨seg, hseg, hd⟩
            simp only [List.length_append, List.length_reverse, List.length_cons] at this
            omega
    · have hround : removeAux (n + 1) ('/' :: t) out =
          removeAux n ('/' :: (afterSegment t).tail) out' := by
        rw [removeAux, h]
      refine ⟨fun hall ↦ absurd hdot (hall _ List.mem_cons_self), fun _ ↦ ?_⟩
      rw [hround]
      have hle := length_removeAux_le n ('/' :: (afterSegment t).tail) out'
      have := length_pos_of_isDot hdot
      rw [List.length_cons, List.length_tail] at hle
      omega

/-- **What the algorithm leaves alone**: on an absolute path, exactly the paths with no dot
segment. -/
theorem removeDotSegments_eq_self_iff {t : Text} :
    removeDotSegments ('/' :: t) = '/' :: t ↔ ∀ seg ∈ Text.split '/' t, ¬IsDot seg := by
  obtain ⟨hkeep, hlose⟩ := removeAux_slash (t.length + 2) t [] le_rfl
  constructor
  · intro h
    by_contra hne
    simp only [not_forall, not_not] at hne
    obtain ⟨seg, hseg, hd⟩ := hne
    have hlt := hlose ⟨seg, hseg, hd⟩
    rw [show removeAux (t.length + 2) ('/' :: t) [] = '/' :: t from h] at hlt
    simp at hlt
  · exact fun h ↦ hkeep h

example : removeDotSegments "/a/b/c/./../../g".toList = "/a/g".toList := by decide
example : removeDotSegments "mid/content=5/../6".toList = "mid/6".toList := by decide

end DotSegments
