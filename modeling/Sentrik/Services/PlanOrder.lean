import Sentrik.Library.Keyed
import Sentrik.Library.StableSort
import Sentrik.Services.Planning

/-!
# Letting a model reorder the plan

The re-ranker answers a list of check names: some unknown, some missing, some twice. `_apply_reorder` numbers
the steps and sorts them by the rank of their name and their number. With the dictionary of the source, which
keeps the first position of a name, that is a stable sort by `List.idxOf` (`apply_reorder_eq`).

`reorder_lawful`: the answer can change nothing but the order, whatever strategy was applied before.
-/

namespace Sentrik

namespace Reranker

/-! ### The source -/

/-- The dictionary of positions: `setdefault` for each name. -/
def rank (order : List String) : List (String × ℕ) := Keyed.addAll Prod.fst [] order.zipIdx

/-- `rank.get(name, default)`. -/
def rankOf (order : List String) (name : String) : ℕ :=
  ((Keyed.row Prod.fst (rank order) name).map Prod.snd).getD order.length

def _apply_reorder (planned : List PlannedStep) (order : List String) : List PlannedStep :=
  let indexed := planned.zipIdx
  let sorted := indexed.insertionSort fun p q ↦
    rankOf order p.1.check_name < rankOf order q.1.check_name ∨
      rankOf order p.1.check_name = rankOf order q.1.check_name ∧ p.2 ≤ q.2
  sorted.map Prod.fst

/-! ### Ranks are positions -/

theorem row_zipIdx (order : List String) (name : String) (n : ℕ) :
    ((Keyed.row Prod.fst (order.zipIdx n) name).map Prod.snd).getD (n + order.length) =
      n + order.idxOf name := by
  induction order generalizing n with
  | nil => rfl
  | cons a rest ih =>
    rw [List.zipIdx_cons, Keyed.row, List.find?_cons]
    by_cases ha : a = name
    · subst ha
      simp
    · have hlength : n + (a :: rest).length = n + 1 + rest.length := by
        rw [List.length_cons]
        omega
      rw [decide_eq_false ha, List.idxOf_cons_ne _ ha, hlength]
      exact (ih (n + 1)).trans (by omega)

/-- The rank of a name is the position of its first occurrence, or the length of the order. -/
theorem rankOf_eq (order : List String) (name : String) : rankOf order name = order.idxOf name := by
  have h := row_zipIdx order name 0
  rw [Nat.zero_add, Nat.zero_add] at h
  rw [rankOf, rank, Keyed.row_addAll, List.nil_append]
  exact h

theorem apply_reorder_eq (planned : List PlannedStep) (order : List String) :
    _apply_reorder planned order =
      StableSort.byRank (fun s : PlannedStep ↦ order.idxOf s.check_name) planned := by
  simp only [_apply_reorder, rankOf_eq]
  exact StableSort.map_insertionSort_zipIdx (fun s : PlannedStep ↦ order.idxOf s.check_name) planned 0

/-- `rerank_plan` applies the same reordering. -/
theorem apply_reorder_eq_planning (planned : List PlannedStep) (order : List String) :
    _apply_reorder planned order = Sentrik._apply_reorder planned order :=
  apply_reorder_eq planned order

/-! ### What reordering may do -/

/-- `result` is `base` reordered by the names in `order`. -/
structure Lawful (base result : List PlannedStep) (order : List String) : Prop where
  /-- Nothing is added, dropped or doubled. -/
  perm : result.Perm base
  /-- The steps named in the order come before all others. -/
  named_first : result.Pairwise fun s t ↦ t.check_name ∈ order → s.check_name ∈ order
  /-- They follow the first occurrences of their names. -/
  follows : result.Pairwise fun s t ↦ t.check_name ∈ order →
    order.idxOf s.check_name ≤ order.idxOf t.check_name
  /-- The steps of one name keep their order. -/
  stable : ∀ name ∈ order,
    result.filter (fun s ↦ s.check_name = name) = base.filter fun s ↦ s.check_name = name
  /-- So do the steps that are not named. -/
  stable_rest :
    result.filter (fun s ↦ s.check_name ∉ order) = base.filter fun s ↦ s.check_name ∉ order

theorem lawful_apply_reorder (planned : List PlannedStep) (order : List String) :
    Lawful planned (_apply_reorder planned order) order := by
  have hsorted : (_apply_reorder planned order).Pairwise fun s t ↦
      order.idxOf s.check_name ≤ order.idxOf t.check_name := by
    rw [apply_reorder_eq]
    exact StableSort.pairwise_byRank _ planned
  have hstable (k : ℕ) : (_apply_reorder planned order).filter (fun s ↦ order.idxOf s.check_name = k) =
      planned.filter fun s ↦ order.idxOf s.check_name = k := by
    rw [apply_reorder_eq]
    exact StableSort.filter_byRank _ planned k
  refine ⟨?_, ?_, ?_, ?_, ?_⟩
  · rw [apply_reorder_eq]
    exact List.perm_insertionSort ..
  · -- a position below that of a name is below the length
    refine hsorted.imp fun {s t} hle ht ↦ ?_
    exact List.idxOf_lt_length_iff.1 (hle.trans_lt (List.idxOf_lt_length_iff.2 ht))
  · exact hsorted.imp fun {s t} hle (_ : t.check_name ∈ order) ↦ hle
  · intro name hname
    have hequal (s : PlannedStep) :
        (order.idxOf s.check_name = order.idxOf name) ↔ s.check_name = name :=
      eq_comm.trans ((List.idxOf_inj hname).trans eq_comm)
    simpa only [hequal] using hstable (order.idxOf name)
  · have hrest (s : PlannedStep) : (order.idxOf s.check_name = order.length) ↔ s.check_name ∉ order :=
      List.idxOf_eq_length_iff
    simpa only [hrest] using hstable order.length

/-- Applying the same order again changes nothing. -/
theorem apply_reorder_apply_reorder (planned : List PlannedStep) (order : List String) :
    _apply_reorder (_apply_reorder planned order) order = _apply_reorder planned order := by
  rw [apply_reorder_eq, apply_reorder_eq]
  exact StableSort.byRank_byRank _ planned

/-- **Reordering is a permutation**, stable, and idempotent, for every strategy and every answer. -/
theorem reorder_lawful (planned : List PlannedStep) (strategy : String) (order : List String) :
    (_apply_reorder (_apply_strategy planned strategy) order).Perm planned ∧
      Lawful (_apply_strategy planned strategy)
        (_apply_reorder (_apply_strategy planned strategy) order) order ∧
      _apply_reorder (_apply_reorder (_apply_strategy planned strategy) order) order =
        _apply_reorder (_apply_strategy planned strategy) order := by
  have hlawful := lawful_apply_reorder (_apply_strategy planned strategy) order
  exact ⟨hlawful.perm.trans (perm_apply_strategy planned strategy), hlawful,
    apply_reorder_apply_reorder _ order⟩

end Reranker

end Sentrik
