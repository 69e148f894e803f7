import Mathlib.Tactic.Linarith
import Mathlib.Tactic.FieldSimp
import Sentrik.Services.Scoring

/-!
# One more finding

The overall score of an assessment is the mean of the five highest scores, so a finding that is added can
lower it as long as there are fewer than five: `risk_grows_iff` says exactly when it does.

Rounding and the grades follow the mean: `round` is monotone, and so is `gradeOf` in the score and in the
counts.
-/

namespace Sentrik

namespace Scoring

/-! ### The highest scores -/

section

variable {x : ℚ} {l s : List ℚ}

/-- The scores, highest first. -/
def descending (l : List ℚ) : List ℚ := l.mergeSort fun a b ↦ b ≤ a

theorem descending_perm (l : List ℚ) : (descending l).Perm l := List.mergeSort_perm l _

theorem descending_pairwise (l : List ℚ) : (descending l).Pairwise (· ≥ ·) := by
  have hsorted : (descending l).Pairwise fun a b ↦ decide (b ≤ a) = true := List.pairwise_mergeSort
    (fun a b c hab hbc ↦ decide_eq_true ((of_decide_eq_true hbc).trans (of_decide_eq_true hab)))
    (fun a b ↦ by simpa using le_total b a) l
  exact hsorted.imp fun h ↦ of_decide_eq_true h

/-- A new score finds its place. -/
theorem descending_cons {l' : List ℚ} (h : l'.Perm (x :: l)) :
    descending l' = (descending l).orderedInsert (· ≥ ·) x := by
  refine List.Perm.eq_of_pairwise (fun a b _ _ hab hba ↦ le_antisymm hba hab) (descending_pairwise l')
    ((descending_pairwise l).orderedInsert x _) ?_
  exact (descending_perm l').trans (h.trans (((descending_perm l).symm.cons x).trans
    (List.perm_orderedInsert _ x _).symm))

theorem sum_take_succ_le {k : ℕ} (hs : ∀ a ∈ s, a ≤ x) (hk : k < s.length) :
    (s.take (k + 1)).sum ≤ x + (s.take k).sum := by
  have hlast : s.take (k + 1) = s.take k ++ [s[k]] := (List.take_concat_get' s k hk).symm
  have hle : s[k] ≤ x := hs _ (List.getElem_mem hk)
  rw [hlast, List.sum_append, List.sum_singleton]
  linarith

/-- The sum of so many highest scores does not fall. -/
theorem sum_take_orderedInsert {k : ℕ} (hs : s.Pairwise (· ≥ ·)) (hk : k ≤ s.length) :
    (s.take k).sum ≤ ((s.orderedInsert (· ≥ ·) x).take k).sum := by
  induction s generalizing k with
  | nil =>
    obtain rfl := Nat.le_zero.1 hk
    exact le_refl _
  | cons a s ih =>
    obtain ⟨ha, hs'⟩ := List.pairwise_cons.1 hs
    cases k with
    | zero => exact le_refl _
    | succ k =>
      by_cases hxa : x ≥ a
      · -- the new score comes first and displaces the last of the others
        have hall : ∀ b ∈ a :: s, b ≤ x := by
          intro b hb
          rcases List.mem_cons.1 hb with rfl | hb
          · exact hxa
          · exact (ha b hb).trans hxa
        rw [List.orderedInsert_cons_of_le _ _ hxa, List.take_succ_cons, List.sum_cons]
        exact sum_take_succ_le hall hk
      · rw [List.orderedInsert_of_not_le _ _ hxa, List.take_succ_cons, List.take_succ_cons, List.sum_cons,
          List.sum_cons]
        have := ih hs' (Nat.le_of_succ_le_succ hk)
        linarith

theorem meanOfTop_eq (l : List ℚ) (hl : l ≠ []) :
    meanOfTop l = ((descending l).take 5).sum / (min 5 l.length : ℕ) := by
  have hlength : ((descending l).take 5).length = min 5 l.length := by
    rw [List.length_take, (descending_perm l).length_eq]
  have hne : (descending l).take 5 ≠ [] := by
    have hpos := List.length_pos_iff.2 hl
    rw [← List.length_pos_iff, hlength]
    omega
  show (if (descending l).take 5 = [] then 0
    else ((descending l).take 5).sum / ((descending l).take 5).length) = _
  rw [if_neg hne, hlength]

/-- Of up to five scores, the mean is that of all. -/
theorem meanOfTop_of_length_le (l : List ℚ) (hl : l ≠ []) (hlength : l.length ≤ 5) :
    meanOfTop l = l.sum / l.length := by
  have htake : (descending l).take 5 = descending l :=
    List.take_of_length_le ((descending_perm l).length_eq.trans_le hlength)
  rw [meanOfTop_eq l hl, htake, (descending_perm l).sum_eq, Nat.min_eq_right hlength]

/-- **When the mean does not fall**: with no score before, with five or more, or with one that is not below
the mean. -/
theorem meanOfTop_le_iff {l' : List ℚ} (h : l'.Perm (x :: l)) (hx : 0 ≤ x) :
    meanOfTop l ≤ meanOfTop l' ↔ l = [] ∨ 5 ≤ l.length ∨ l.sum ≤ l.length * x := by
  have hlength : l'.length = l.length + 1 := h.length_eq
  have hne : l' ≠ [] := by
    rw [← List.length_pos_iff, hlength]
    exact Nat.succ_pos _
  rcases eq_or_ne l [] with rfl | hl
  · have hzero : meanOfTop [] = 0 := by simp [meanOfTop]
    rw [meanOfTop_of_length_le l' hne (by rw [hlength]; decide), h.sum_eq, hlength, hzero]
    refine iff_of_true ?_ (.inl rfl)
    simpa using hx
  have hpos : 0 < l.length := List.length_pos_iff.2 hl
  by_cases hfive : 5 ≤ l.length
  · refine iff_of_true ?_ (.inr (.inl hfive))
    rw [meanOfTop_eq l hl, meanOfTop_eq l' hne, Nat.min_eq_left hfive, Nat.min_eq_left (by omega),
      descending_cons h]
    have hsum := sum_take_orderedInsert (x := x) (descending_pairwise l)
      (hfive.trans_eq (descending_perm l).length_eq.symm)
    exact div_le_div_of_nonneg_right hsum (by norm_num)
  · have hsum : l'.sum = x + l.sum := h.sum_eq
    have hcount : (0 : ℚ) < l.length := by exact_mod_cast hpos
    rw [meanOfTop_of_length_le l hl (by omega), meanOfTop_of_length_le l' hne (by omega), hsum, hlength,
      Nat.cast_add, Nat.cast_one, div_le_div_iff₀ hcount (by linarith)]
    constructor
    · intro hle
      refine .inr (.inr ?_)
      linarith
    · rintro (hnil | hle | hle)
      · exact absurd hnil hl
      · exact absurd hle hfive
      · linarith

end

/-! ### Grades -/

theorem roundHalfEven_bounds (x : ℚ) : ⌊x⌋ ≤ roundHalfEven x ∧ roundHalfEven x ≤ ⌊x⌋ + 1 := by
  unfold roundHalfEven
  dsimp only
  split_ifs <;> omega

/-- Rounding keeps the order. -/
theorem roundHalfEven_mono {x y : ℚ} (h : x ≤ y) : roundHalfEven x ≤ roundHalfEven y := by
  have hfloor : ⌊x⌋ ≤ ⌊y⌋ := Int.floor_le_floor h
  rcases hfloor.lt_or_eq with hlt | heq
  · exact (roundHalfEven_bounds x).2.trans (Int.add_one_le_of_lt hlt |>.trans (roundHalfEven_bounds y).1)
  · have hrest : x - ⌊x⌋ ≤ y - ⌊y⌋ := by
      rw [heq]
      linarith
    unfold roundHalfEven
    dsimp only
    rw [heq] at hrest ⊢
    split_ifs
    all_goals first | omega | exact absurd hrest (by linarith)

theorem round_mono {x y : ℚ} (digits : ℕ) (h : x ≤ y) : round x digits ≤ round y digits := by
  have hpos : (0 : ℚ) < 10 ^ digits := by positivity
  have hrounded := roundHalfEven_mono (mul_le_mul_of_nonneg_right h hpos.le)
  unfold round
  exact div_le_div_of_nonneg_right (by exact_mod_cast hrounded) hpos.le

/-- The grades of a covered assessment, the least severe first. -/
def gradeOrder : List String :=
  ["no-confirmed-issues", "low-risk", "needs-attention", "at-risk", "critical"]

/-- Both are among the ordered grades, and the first comes earlier. -/
def LessSevere (g g' : String) : Prop :=
  g ∈ gradeOrder ∧ g' ∈ gradeOrder ∧ gradeOrder.idxOf g < gradeOrder.idxOf g'

instance (g g' : String) : Decidable (LessSevere g g') := inferInstanceAs (Decidable (_ ∧ _ ∧ _))

/-- With a higher score and more findings, the grade is no less severe. -/
theorem not_lessSevere_gradeOf {total : ℕ} {coverage overall overall' : ℚ} {confirmed suspected confirmed' suspected' : ℕ}
    (hoverall : overall ≤ overall') (hconfirmed : confirmed ≤ confirmed') (hsuspected : suspected ≤ suspected') :
    ¬LessSevere (gradeOf total coverage overall' confirmed' suspected')
      (gradeOf total coverage overall confirmed suspected) := by
  unfold gradeOf
  split_ifs
  all_goals first | decide | (exfalso; linarith) | (exfalso; omega)

/-- What adding a finding does to the risk: neither the unrounded mean nor the grade goes down. -/
def Undiluted (scores scores' : List ℚ) (statuses statuses' : List FindingStatus) (tested total : ℕ) : Prop :=
  meanOfTop scores ≤ meanOfTop scores' ∧
    ¬LessSevere (score_assessment scores' statuses' tested total).grade
      (score_assessment scores statuses tested total).grade

end Scoring

end Sentrik
