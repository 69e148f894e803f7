import Mathlib.Data.List.Nodup

/-!
# Rows found by a key

A table is a list of rows, looked up at the first row of a key. `add` keeps what is there, `set` replaces it;
both leave every other key alone, and both keep one row for each key.

`row_addAll` is what a store amounts to that drops whatever it already knows: after any number of rows were
offered, each key has the first row that was there or offered.
-/

namespace Keyed

variable {α κ : Type*} [DecidableEq κ] (key : α → κ)

/-- The row of a key. -/
def row (store : List α) (k : κ) : Option α := store.find? (key · = k)

/-- Add a row, unless its key has one. -/
def add (store : List α) (a : α) : List α := if key a ∈ store.map key then store else store ++ [a]

/-- Add rows, one after the other. -/
def addAll (store l : List α) : List α := l.foldl (add key) store

/-- Replace the row of a key, or add one. -/
def set : List α → α → List α
  | [], a => [a]
  | b :: rest, a => if key b = key a then a :: rest else b :: set rest a

/-- Write rows, one after the other. -/
def setAll (store l : List α) : List α := l.foldl (set key) store

variable {key}

/-! ### Looking a key up -/

theorem key_of_row {store : List α} {k : κ} {a : α} (h : row key store k = some a) : key a = k := by
  simpa using List.find?_some h

theorem mem_of_row {store : List α} {k : κ} {a : α} (h : row key store k = some a) : a ∈ store :=
  List.mem_of_find?_eq_some h

theorem row_eq_none_iff {store : List α} {k : κ} : row key store k = none ↔ k ∉ store.map key := by
  rw [row, List.find?_eq_none, List.mem_map]
  simp

theorem exists_row_iff {store : List α} {k : κ} :
    (∃ a, row key store k = some a) ↔ k ∈ store.map key := by
  rw [← Option.isSome_iff_exists, ← not_iff_not, Bool.not_eq_true, Option.isSome_eq_false_iff,
    Option.isNone_iff_eq_none, row_eq_none_iff]

theorem row_append (store l : List α) (k : κ) :
    row key (store ++ l) k = (row key store k).or (row key l k) := List.find?_append

/-- A lookup after every row was replaced by one of the same key. -/
theorem row_map {β : Type*} {key' : β → κ} {f : α → β} (hf : ∀ a, key' (f a) = key a) (store : List α)
    (k : κ) : row key' (store.map f) k = (row key store k).map f := by
  rw [row, List.find?_map, row]
  congr 2
  funext a
  show decide (key' (f a) = k) = decide (key a = k)
  rw [hf]

/-- Under one row for each key the row of a key is the only one. -/
theorem filter_of_row {store : List α} (hnodup : (store.map key).Nodup) {k : κ} {a : α}
    (h : row key store k = some a) : store.filter (key · = k) = [a] := by
  induction store with
  | nil => cases h
  | cons b rest ih =>
    obtain ⟨hb, hrest⟩ := List.nodup_cons.1 hnodup
    rw [row, List.find?_cons] at h
    by_cases hk : key b = k
    · rw [decide_eq_true hk] at h
      obtain rfl := Option.some.inj h
      rw [List.filter_cons, if_pos (decide_eq_true hk)]
      -- no other row has this key
      have hnone : rest.filter (key · = k) = [] := by
        rw [List.filter_eq_nil_iff]
        intro c hc hck
        exact hb (List.mem_map.2 ⟨c, hc, (of_decide_eq_true hck).trans hk.symm⟩)
      rw [hnone]
    · rw [decide_eq_false hk] at h
      rw [List.filter_cons, if_neg (by simpa using hk)]
      exact ih hrest h

/-! ### Adding what is not there -/

theorem addAll_cons (store : List α) (a : α) (l : List α) :
    addAll key store (a :: l) = addAll key (add key store a) l := rfl

theorem addAll_append (store l l' : List α) :
    addAll key store (l ++ l') = addAll key (addAll key store l) l' := List.foldl_append

/-- A lookup after a row was offered: what was there comes first. -/
theorem row_add (store : List α) (a : α) (k : κ) :
    row key (add key store a) k = row key (store ++ [a]) k := by
  rw [add]
  split
  next hmem =>
    obtain ⟨b, hb⟩ := exists_row_iff.2 hmem
    rw [row_append]
    by_cases hk : key a = k
    · rw [← hk, hb, Option.some_or]
    · have hnone : row key [a] k = none := row_eq_none_iff.2 (by simpa using Ne.symm hk)
      rw [hnone, Option.or_none]
  next => rfl

/-- **The first row wins.** -/
theorem row_addAll (store l : List α) (k : κ) :
    row key (addAll key store l) k = row key (store ++ l) k := by
  induction l generalizing store with
  | nil => rw [addAll, List.foldl_nil, List.append_nil]
  | cons a l ih =>
    have hstep : row key (add key store a ++ l) k = row key (store ++ [a] ++ l) k := by
      rw [row_append, row_add, ← row_append]
    rw [addAll_cons, ih, hstep, List.append_assoc, List.singleton_append]

theorem nodup_add {store : List α} (h : (store.map key).Nodup) (a : α) :
    ((add key store a).map key).Nodup := by
  rw [add]
  split
  next => exact h
  next hnew =>
    rw [List.map_append, List.map_singleton]
    exact h.append (List.nodup_singleton _) (by simpa using hnew)

theorem nodup_addAll {store : List α} (h : (store.map key).Nodup) (l : List α) :
    ((addAll key store l).map key).Nodup := by
  induction l generalizing store with
  | nil => exact h
  | cons a l ih => exact ih (nodup_add h a)

theorem mem_addAll {store l : List α} {a : α} (h : a ∈ addAll key store l) : a ∈ store ∨ a ∈ l := by
  induction l generalizing store with
  | nil => exact Or.inl h
  | cons b l ih =>
    rcases ih h with hadd | hl
    · rw [add] at hadd
      split at hadd
      · exact Or.inl hadd
      · rcases List.mem_append.1 hadd with hstore | hb
        · exact Or.inl hstore
        · exact Or.inr (List.mem_singleton.1 hb ▸ List.mem_cons_self)
    · exact Or.inr (List.mem_cons_of_mem _ hl)

theorem mem_keys_addAll {store l : List α} {k : κ} :
    k ∈ (addAll key store l).map key ↔ k ∈ (store ++ l).map key := by
  rw [← exists_row_iff, ← exists_row_iff, row_addAll]

/-! ### Replacing what is there -/

/-- A lookup after a row was written. -/
theorem row_set (store : List α) (a : α) (k : κ) :
    row key (set key store a) k = if key a = k then some a else row key store k := by
  induction store with
  | nil =>
    rw [set, row, List.find?_singleton, row, List.find?_nil]
    simp only [decide_eq_true_eq]
  | cons b rest ih =>
    rw [row] at ih
    rw [set]
    by_cases hba : key b = key a
    · rw [if_pos hba, row, List.find?_cons, row, List.find?_cons, hba]
      by_cases hk : key a = k
      · rw [if_pos hk, decide_eq_true hk]
      · rw [if_neg hk, decide_eq_false hk]
    · rw [if_neg hba, row, List.find?_cons, row, List.find?_cons]
      by_cases hk : key b = k
      · have hne : key a ≠ k := fun h ↦ hba (hk.trans h.symm)
        rw [decide_eq_true hk, if_neg hne]
      · rw [decide_eq_false hk]
        exact ih

theorem mem_set {store : List α} {a b : α} (h : b ∈ set key store a) : b = a ∨ b ∈ store := by
  induction store with
  | nil => exact Or.inl (List.mem_singleton.1 h)
  | cons c rest ih =>
    rw [set] at h
    split at h
    · exact (List.mem_cons.1 h).imp_right (List.mem_cons_of_mem _)
    · rcases List.mem_cons.1 h with rfl | hrest
      · exact Or.inr List.mem_cons_self
      · exact (ih hrest).imp_right (List.mem_cons_of_mem _)

theorem mem_setAll {store l : List α} {a : α} (h : a ∈ setAll key store l) : a ∈ store ∨ a ∈ l := by
  induction l generalizing store with
  | nil => exact Or.inl h
  | cons b l ih =>
    rcases ih h with hset | hl
    · rcases mem_set hset with rfl | hstore
      · exact Or.inr List.mem_cons_self
      · exact Or.inl hstore
    · exact Or.inr (List.mem_cons_of_mem _ hl)

theorem mem_keys_set {store : List α} {a : α} {k : κ} :
    k ∈ (set key store a).map key ↔ k ∈ (store ++ [a]).map key := by
  rw [← exists_row_iff, row_set, List.map_append, List.mem_append, List.map_singleton, List.mem_singleton]
  by_cases hk : key a = k
  · rw [if_pos hk]
    exact iff_of_true ⟨a, rfl⟩ (Or.inr hk.symm)
  · rw [if_neg hk, exists_row_iff, or_iff_left (Ne.symm hk)]

theorem mem_keys_setAll {store l : List α} {k : κ} :
    k ∈ (setAll key store l).map key ↔ k ∈ (store ++ l).map key := by
  induction l generalizing store with
  | nil => rw [setAll, List.foldl_nil, List.append_nil]
  | cons a l ih =>
    have hset : k ∈ (set key store a).map key ∨ k ∈ l.map key ↔ k ∈ (store ++ a :: l).map key := by
      rw [mem_keys_set, ← List.mem_append, ← List.map_append, List.append_assoc, List.singleton_append]
    rw [setAll, List.foldl_cons, ← setAll, ih, List.map_append, List.mem_append, hset]

/-- A row of a new key is added at the end. -/
theorem set_of_notMem {store : List α} {a : α} (h : key a ∉ store.map key) :
    set key store a = store ++ [a] := by
  induction store with
  | nil => rfl
  | cons b rest ih =>
    rw [List.map_cons, List.mem_cons, not_or] at h
    rw [set, if_neg (Ne.symm h.1), ih h.2, List.cons_append]

/-- Rows of distinct keys are all there, in their order. -/
theorem setAll_of_nodup {store l : List α} (h : ((store ++ l).map key).Nodup) :
    setAll key store l = store ++ l := by
  induction l generalizing store with
  | nil => rw [List.append_nil]; rfl
  | cons a l ih =>
    have hnew : key a ∉ store.map key := by
      rw [List.map_append, List.map_cons] at h
      exact fun hmem ↦ (List.disjoint_of_nodup_append h) hmem List.mem_cons_self
    rw [List.append_cons] at h ⊢
    rw [setAll, List.foldl_cons, set_of_notMem hnew, ← setAll, ih h]

theorem nodup_set {store : List α} (h : (store.map key).Nodup) (a : α) :
    ((set key store a).map key).Nodup := by
  induction store with
  | nil => exact List.nodup_singleton _
  | cons b rest ih =>
    obtain ⟨hb, hrest⟩ := List.nodup_cons.1 h
    rw [set]
    split
    next heq =>
      rw [List.map_cons, ← heq]
      exact List.nodup_cons.2 ⟨hb, hrest⟩
    next hne =>
      refine List.nodup_cons.2 ⟨fun hmem ↦ ?_, ih hrest⟩
      rw [mem_keys_set, List.map_append, List.mem_append, List.map_singleton, List.mem_singleton] at hmem
      exact hmem.elim hb hne

theorem nodup_setAll {store : List α} (h : (store.map key).Nodup) (l : List α) :
    ((setAll key store l).map key).Nodup := by
  induction l generalizing store with
  | nil => exact h
  | cons a l ih => exact ih (nodup_set h a)

end Keyed
