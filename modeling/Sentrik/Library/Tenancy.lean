import Mathlib.Data.List.Nodup

/-!
# Rows with an owner

A table is a list of rows; each row has an owner, and possibly a key. Two tables **agree on** an owner
when they hold the same rows of that owner, in the same order, whatever they hold of others.

The two ways of reading a table that do not see other owners' rows:

* selecting rows by a condition that implies the owner (`AgreeOn.filter_eq`);
* looking a row up by its key, the keys being unique, and using it only if the owner is right
  (`AgreeOn.find_own`).
-/

namespace Tenancy

variable {ρ ω κ : Type*} [DecidableEq ω] [DecidableEq κ] (owner : ρ → ω) (key : ρ → κ)

/-- The rows of one owner. -/
def rowsOf (o : ω) (l : List ρ) : List ρ := l.filter (owner · = o)

/-- Two tables hold the same rows of this owner. -/
def AgreeOn (o : ω) (l l' : List ρ) : Prop := rowsOf owner o l = rowsOf owner o l'

variable {owner key}

/-- A condition that implies the owner reads only that owner's rows. -/
theorem filter_rowsOf {o : ω} {l : List ρ} {p : ρ → Bool} (hp : ∀ r ∈ l, p r = true → owner r = o) :
    l.filter p = (rowsOf owner o l).filter p := by
  rw [rowsOf, List.filter_filter]
  refine List.filter_congr fun r hr ↦ ?_
  cases hpr : p r with
  | false => rw [Bool.false_and]
  | true => rw [Bool.true_and, decide_eq_true (hp r hr hpr)]

theorem AgreeOn.filter_eq {o : ω} {l l' : List ρ} (h : AgreeOn owner o l l') {p : ρ → Bool}
    (hp : ∀ r ∈ l, p r = true → owner r = o) (hp' : ∀ r ∈ l', p r = true → owner r = o) :
    l.filter p = l'.filter p := by
  rw [filter_rowsOf hp, filter_rowsOf hp', show rowsOf owner o l = rowsOf owner o l' from h]

/-- With unique keys, a lookup that is used only for the owner's own row is a lookup among the
owner's rows. -/
theorem find_own {o : ω} {k : κ} {l : List ρ} (hl : (l.map key).Nodup) :
    (l.find? (key · = k)).filter (owner · = o) = (rowsOf owner o l).find? (key · = k) := by
  induction l with
  | nil => rfl
  | cons r l ih =>
    rw [List.map_cons, List.nodup_cons] at hl
    by_cases hk : key r = k
    · rw [List.find?_cons_of_pos (by simpa using hk), Option.filter_some]
      by_cases ho : owner r = o
      · rw [rowsOf, List.filter_cons_of_pos (by simpa using ho),
          List.find?_cons_of_pos (by simpa using hk), if_pos (by simpa using ho)]
      · -- no other row has this key, so the owner has none
        rw [rowsOf, List.filter_cons_of_neg (by simpa using ho), if_neg (by simpa using ho), eq_comm,
          List.find?_eq_none]
        intro r' hr' hk'
        have hkey : key r' = key r := (of_decide_eq_true hk').trans hk.symm
        exact hl.1 (hkey ▸ List.mem_map_of_mem (List.mem_of_mem_filter hr'))
    · rw [List.find?_cons_of_neg (by simpa using hk), ih hl.2]
      by_cases ho : owner r = o
      · rw [rowsOf, rowsOf, List.filter_cons_of_pos (by simpa using ho),
          List.find?_cons_of_neg (by simpa using hk)]
      · rw [rowsOf, rowsOf, List.filter_cons_of_neg (by simpa using ho)]

theorem AgreeOn.find_own {o : ω} {k : κ} {l l' : List ρ} (h : AgreeOn owner o l l')
    (hl : (l.map key).Nodup) (hl' : (l'.map key).Nodup) :
    (l.find? (key · = k)).filter (owner · = o) = (l'.find? (key · = k)).filter (owner · = o) := by
  rw [Tenancy.find_own hl, Tenancy.find_own hl', show rowsOf owner o l = rowsOf owner o l' from h]

end Tenancy
