import Mathlib.Data.List.Sort

/-!
# Sorting by a rank

Insertion sort is stable: the elements of one rank stay in the order they had (`filter_byRank`). So
sorting by a rank is the same as sorting numbered elements by rank and number and dropping the numbers
(`map_insertionSort_zipIdx`), which is how a program that does not rely on stability writes it.
-/

namespace StableSort

variable {α κ : Type*} [LinearOrder κ] (rank : α → κ)

/-- Sort by a rank. -/
abbrev byRank (l : List α) : List α := l.insertionSort fun a b ↦ rank a ≤ rank b

theorem pairwise_byRank (l : List α) : (byRank rank l).Pairwise fun a b ↦ rank a ≤ rank b := by
  have : Std.Total fun a b ↦ rank a ≤ rank b := ⟨fun a b ↦ le_total (rank a) (rank b)⟩
  have : IsTrans α fun a b ↦ rank a ≤ rank b := ⟨fun _ _ _ hab hbc ↦ hab.trans hbc⟩
  exact List.pairwise_insertionSort _ l

/-- **Stability.** -/
theorem filter_byRank (l : List α) (k : κ) :
    (byRank rank l).filter (rank · = k) = l.filter (rank · = k) := by
  have hequal : (l.filter (rank · = k)).Pairwise fun a b ↦ rank a ≤ rank b := by
    refine List.pairwise_of_forall_mem_list fun a ha b hb ↦ ?_
    rw [of_decide_eq_true (List.mem_filter.1 ha).2, of_decide_eq_true (List.mem_filter.1 hb).2]
  have hsub : (l.filter (rank · = k)).Sublist ((byRank rank l).filter (rank · = k)) := by
    have h := (List.sublist_insertionSort hequal List.filter_sublist).filter (rank · = k)
    rwa [List.filter_filter, List.filter_congr fun a _ ↦ Bool.and_self _] at h
  have hlength := ((List.perm_insertionSort (fun a b ↦ rank a ≤ rank b) l).filter (rank · = k)).length_eq
  exact (hsub.eq_of_length hlength.symm).symm

/-- Sorting what is sorted changes nothing. -/
theorem byRank_byRank (l : List α) : byRank rank (byRank rank l) = byRank rank l :=
  (pairwise_byRank rank l).insertionSort_eq

/-- Inserting an element with a number below all others into numbered elements. -/
theorem map_orderedInsert_numbered (a : α) (n : ℕ) {l : List (α × ℕ)} (h : ∀ x ∈ l, n < x.2) :
    (l.orderedInsert (fun p q ↦ rank p.1 < rank q.1 ∨ rank p.1 = rank q.1 ∧ p.2 ≤ q.2) (a, n)).map Prod.fst =
      (l.map Prod.fst).orderedInsert (fun a b ↦ rank a ≤ rank b) a := by
  induction l with
  | nil => rfl
  | cons x rest ih =>
    obtain ⟨hx, hrest⟩ := List.forall_mem_cons.1 h
    -- the number never decides against the new element
    have hiff : (rank a < rank x.1 ∨ rank a = rank x.1 ∧ n ≤ x.2) ↔ rank a ≤ rank x.1 := by
      rw [and_iff_left hx.le, ← le_iff_lt_or_eq]
    rw [List.orderedInsert, List.map_cons, List.orderedInsert]
    by_cases hle : rank a ≤ rank x.1
    · rw [if_pos (hiff.2 hle), if_pos hle, List.map_cons, List.map_cons]
    · rw [if_neg (mt hiff.1 hle), if_neg hle, List.map_cons, ih hrest]

/-- **Sorting numbered elements by rank and number.** -/
theorem map_insertionSort_zipIdx (l : List α) (n : ℕ) :
    ((l.zipIdx n).insertionSort
        fun p q ↦ rank p.1 < rank q.1 ∨ rank p.1 = rank q.1 ∧ p.2 ≤ q.2).map Prod.fst =
      byRank rank l := by
  induction l generalizing n with
  | nil => rfl
  | cons a rest ih =>
    have hnumbers : ∀ x ∈ (rest.zipIdx (n + 1)).insertionSort
        fun p q ↦ rank p.1 < rank q.1 ∨ rank p.1 = rank q.1 ∧ p.2 ≤ q.2, n < x.2 := by
      intro x hx
      exact List.le_snd_of_mem_zipIdx ((List.mem_insertionSort _).1 hx)
    rw [List.zipIdx_cons, List.insertionSort_cons, map_orderedInsert_numbered rank a n hnumbers, ih]
    rfl

end StableSort
