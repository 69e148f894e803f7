import Mathlib.Data.List.Basic
import Mathlib.Algebra.Order.Group.Nat
import Mathlib.Data.Int.Order.Basic

/-!
# Breadth-first search

A search with a queue of nodes and their depths. Nodes are identified by a key; a node is visited when it is
taken from the queue and its key is new, so the queue may hold a key several times. A number bounds the
visits, a limit the depth.

The depths in the queue never differ by more than one and never fall (`Inv.sorted`, `Inv.close`), so the first
visit of a key is the one of least depth, and what is dropped from the queue was visited at no greater depth
(`Pending.step`). That carries completeness up to the limit (`search_complete`).
-/

namespace BreadthFirst

variable {ν κ : Type*} [DecidableEq κ] (key : ν → κ) (adj : ν → List ν) (limit : ℤ)

/-! ### The search -/

/-- The next entry that is visited, and the queue behind it. -/
def next (seen : List κ) : List (ν × ℕ) → Option ((ν × ℕ) × List (ν × ℕ))
  | [] => none
  | (v, d) :: queue =>
    if key v ∈ seen ∨ (d : ℤ) > limit then next seen queue else some ((v, d), queue)

/-- The entries a visit adds. -/
def entries (seen : List κ) (v : ν) (d : ℕ) : List (ν × ℕ) :=
  if (d : ℤ) < limit then ((adj v).filter fun w ↦ key w ∉ seen).map fun w ↦ (w, d + 1) else []

/-- The visits, in their order. -/
def search : ℕ → List κ → List (ν × ℕ) → List (ν × ℕ)
  | 0, _, _ => []
  | n + 1, seen, queue =>
    match next key limit seen queue with
    | none => []
    | some ((v, d), rest) =>
      (v, d) :: search n (key v :: seen) (rest ++ entries key adj limit (key v :: seen) v d)

/-! ### Walks -/

/-- A walk of a number of steps. -/
inductive Walk (s : ν) : ℕ → ν → Prop
  | nil : Walk s 0 s
  | snoc {n : ℕ} {v w : ν} (h : Walk s n v) (hw : w ∈ adj v) : Walk s (n + 1) w

/-- A walk between keys: each step leaves some node of the key it has come to. -/
inductive KeyWalk (s : ν) : ℕ → κ → Prop
  | nil : KeyWalk s 0 (key s)
  | snoc {n : ℕ} {v w : ν} (h : KeyWalk s n (key v)) (hw : w ∈ adj v) : KeyWalk s (n + 1) (key w)

variable {key adj limit}

/-! ### One visit -/

theorem next_eq_none {seen : List κ} {queue : List (ν × ℕ)} (h : next key limit seen queue = none) :
    ∀ e ∈ queue, key e.1 ∈ seen ∨ limit < e.2 := by
  induction queue with
  | nil => exact nofun
  | cons e queue ih =>
    obtain ⟨v, d⟩ := e
    rw [next] at h
    split at h
    next hskip => exact List.forall_mem_cons.2 ⟨hskip, ih h⟩
    next => cases h

/-- What is passed over has a key that was seen, or is too deep. -/
theorem next_eq_some {seen : List κ} {queue rest : List (ν × ℕ)} {v : ν} {d : ℕ}
    (h : next key limit seen queue = some ((v, d), rest)) :
    (∃ skipped, queue = skipped ++ (v, d) :: rest ∧ ∀ e ∈ skipped, key e.1 ∈ seen ∨ limit < e.2) ∧
      key v ∉ seen ∧ (d : ℤ) ≤ limit := by
  induction queue with
  | nil => cases h
  | cons e queue ih =>
    obtain ⟨v', d'⟩ := e
    rw [next] at h
    split at h
    next hskip =>
      obtain ⟨⟨skipped, hqueue, hskipped⟩, hvisit⟩ := ih h
      refine ⟨⟨(v', d') :: skipped, ?_, List.forall_mem_cons.2 ⟨hskip, hskipped⟩⟩, hvisit⟩
      rw [hqueue, List.cons_append]
    next hvisit =>
      obtain ⟨heq, rfl⟩ := Prod.mk.inj (Option.some.inj h)
      obtain ⟨rfl, rfl⟩ := Prod.mk.inj heq
      rw [not_or, not_lt] at hvisit
      exact ⟨⟨[], rfl, nofun⟩, hvisit⟩

theorem mem_of_next {seen : List κ} {queue rest : List (ν × ℕ)} {e : ν × ℕ}
    (h : next key limit seen queue = some (e, rest)) : e ∈ queue ∧ rest ⊆ queue := by
  obtain ⟨⟨skipped, rfl, -⟩, -⟩ := next_eq_some h
  exact ⟨List.mem_append_right _ List.mem_cons_self,
    fun _ he ↦ List.mem_append_right _ (List.mem_cons_of_mem _ he)⟩

theorem mem_entries {seen : List κ} {v : ν} {d : ℕ} {e : ν × ℕ} :
    e ∈ entries key adj limit seen v d ↔ (d : ℤ) < limit ∧ e.1 ∈ adj v ∧ key e.1 ∉ seen ∧ e.2 = d + 1 := by
  rw [entries]
  split
  next hlt =>
    rw [and_iff_right hlt, List.mem_map]
    constructor
    · rintro ⟨w, hw, rfl⟩
      obtain ⟨hadj, hnew⟩ := List.mem_filter.1 hw
      exact ⟨hadj, of_decide_eq_true hnew, rfl⟩
    · rintro ⟨hadj, hnew, hd⟩
      exact ⟨e.1, List.mem_filter.2 ⟨hadj, decide_eq_true hnew⟩, Prod.ext rfl hd.symm⟩
  next hge => exact iff_of_false List.not_mem_nil fun h ↦ hge h.1

/-! ### Bounds and soundness -/

theorem length_search (n : ℕ) (seen : List κ) (queue : List (ν × ℕ)) :
    (search key adj limit n seen queue).length ≤ n := by
  induction n generalizing seen queue with
  | zero => exact le_refl 0
  | succ n ih =>
    rw [search]
    split
    · exact Nat.zero_le _
    · exact Nat.succ_le_succ (ih _ _)

/-- **No key is visited twice.** -/
theorem nodup_search (n : ℕ) (seen : List κ) (queue : List (ν × ℕ)) :
    ((search key adj limit n seen queue).map fun e ↦ key e.1).Nodup ∧
      ∀ e ∈ search key adj limit n seen queue, key e.1 ∉ seen := by
  induction n generalizing seen queue with
  | zero => exact ⟨List.nodup_nil, nofun⟩
  | succ n ih =>
    rw [search]
    split
    · exact ⟨List.nodup_nil, nofun⟩
    next v d rest hnext =>
      obtain ⟨-, hnew, -⟩ := next_eq_some hnext
      obtain ⟨hnodup, hfresh⟩ := ih (key v :: seen) (rest ++ entries key adj limit (key v :: seen) v d)
      constructor
      · rw [List.map_cons, List.nodup_cons]
        refine ⟨fun hmem ↦ ?_, hnodup⟩
        obtain ⟨e, he, hkey⟩ := List.mem_map.1 hmem
        exact hfresh e he (hkey ▸ List.mem_cons_self)
      · exact List.forall_mem_cons.2 ⟨hnew, fun e he hmem ↦ hfresh e he (List.mem_cons_of_mem _ hmem)⟩

/-- **Every visit is at the end of a walk** of its depth, within the limit. -/
theorem walk_of_search {s : ν} (n : ℕ) (seen : List κ) {queue : List (ν × ℕ)}
    (hqueue : ∀ e ∈ queue, Walk adj s e.2 e.1) :
    ∀ e ∈ search key adj limit n seen queue, Walk adj s e.2 e.1 ∧ (e.2 : ℤ) ≤ limit := by
  induction n generalizing seen queue with
  | zero => exact nofun
  | succ n ih =>
    rw [search]
    split
    · exact nofun
    next v d rest hnext =>
      obtain ⟨hmem, hsub⟩ := mem_of_next hnext
      obtain ⟨-, -, hdepth⟩ := next_eq_some hnext
      have hv : Walk adj s d v := hqueue (v, d) hmem
      refine List.forall_mem_cons.2 ⟨⟨hv, hdepth⟩, ih _ fun e he ↦ ?_⟩
      rcases List.mem_append.1 he with he | he
      · exact hqueue e (hsub he)
      · obtain ⟨-, hadj, -, hd⟩ := mem_entries.1 he
        rw [hd]
        exact hv.snoc hadj

/-! ### Completeness -/

/-- The key was visited at this depth at the latest, or waits in the queue for it. -/
def Pending (key : ν → κ) (visited queue : List (ν × ℕ)) (k : κ) (n : ℕ) : Prop :=
  (∃ y ∈ visited, key y.1 = k ∧ y.2 ≤ n) ∨ ∃ e ∈ queue, key e.1 = k ∧ e.2 ≤ n

/-- What holds between two visits. -/
structure Inv (key : ν → κ) (adj : ν → List ν) (limit : ℤ) (s : ν) (visited queue : List (ν × ℕ)) : Prop where
  sorted : queue.Pairwise fun e e' ↦ e.2 ≤ e'.2
  close : ∀ e ∈ queue, ∀ e' ∈ queue, e'.2 ≤ e.2 + 1
  past : ∀ y ∈ visited, ∀ e ∈ queue, y.2 ≤ e.2
  start : 0 ≤ limit → Pending key visited queue (key s) 0
  closed : ∀ y ∈ visited, (y.2 : ℤ) < limit → ∀ w ∈ adj y.1, Pending key visited queue (key w) (y.2 + 1)

variable {s : ν} {visited queue rest : List (ν × ℕ)} {seen : List κ} {v : ν} {d : ℕ}

omit [DecidableEq κ] in
theorem Inv.init : Inv key adj limit s [] [(s, 0)] where
  sorted := List.pairwise_singleton _ _
  close e he e' he' := by
    rw [List.mem_singleton.1 he, List.mem_singleton.1 he']
    exact Nat.zero_le _
  past := nofun
  start _ := .inr ⟨(s, 0), List.mem_singleton_self _, rfl, le_refl 0⟩
  closed := nofun

/-- What is passed over was visited at no greater depth. -/
theorem Inv.visited_of_skipped (h : Inv key adj limit s visited queue)
    (hseen : ∀ k, k ∈ seen ↔ ∃ y ∈ visited, key y.1 = k) {e : ν × ℕ} (he : e ∈ queue)
    (hskip : key e.1 ∈ seen ∨ limit < e.2) {n : ℕ} (hn : (n : ℤ) ≤ limit) (hle : e.2 ≤ n) :
    ∃ y ∈ visited, key y.1 = key e.1 ∧ y.2 ≤ n := by
  rcases hskip with hmem | hdeep
  · obtain ⟨y, hy, hkey⟩ := (hseen _).1 hmem
    exact ⟨y, hy, hkey, (h.past y hy e he).trans hle⟩
  · omega

/-- **A visit loses nothing.** -/
theorem Pending.step (h : Inv key adj limit s visited queue)
    (hseen : ∀ k, k ∈ seen ↔ ∃ y ∈ visited, key y.1 = k)
    (hnext : next key limit seen queue = some ((v, d), rest)) {k : κ} {n : ℕ} (hn : (n : ℤ) ≤ limit)
    (hpending : Pending key visited queue k n) (more : List (ν × ℕ)) :
    Pending key (visited ++ [(v, d)]) (rest ++ more) k n := by
  obtain ⟨⟨skipped, hqueue, hskipped⟩, -⟩ := next_eq_some hnext
  rcases hpending with ⟨y, hy, hkey⟩ | ⟨e, he, rfl, hle⟩
  · exact .inl ⟨y, List.mem_append_left _ hy, hkey⟩
  · have hcases := he
    rw [hqueue, List.mem_append, List.mem_cons] at hcases
    rcases hcases with hskip | rfl | hrest
    · obtain ⟨y, hy, hkey⟩ := h.visited_of_skipped hseen he (hskipped e hskip) hn hle
      exact .inl ⟨y, List.mem_append_left _ hy, hkey⟩
    · exact .inl ⟨(v, d), List.mem_append_right _ (List.mem_singleton_self _), rfl, hle⟩
    · exact .inr ⟨e, List.mem_append_left _ hrest, rfl, hle⟩

theorem Inv.step (h : Inv key adj limit s visited queue)
    (hseen : ∀ k, k ∈ seen ↔ ∃ y ∈ visited, key y.1 = k)
    (hnext : next key limit seen queue = some ((v, d), rest)) :
    Inv key adj limit s (visited ++ [(v, d)])
      (rest ++ entries key adj limit (key v :: seen) v d) := by
  obtain ⟨hmem, hsub⟩ := mem_of_next hnext
  have hhead : ∀ e ∈ rest, d ≤ e.2 := by
    obtain ⟨⟨skipped, rfl, -⟩, -⟩ := next_eq_some hnext
    exact (List.pairwise_cons.1 (List.pairwise_append.1 h.sorted).2.1).1
  have hclose : ∀ e ∈ rest, e.2 ≤ d + 1 := fun e he ↦ h.close (v, d) hmem e (hsub he)
  have hnew : ∀ e ∈ entries key adj limit (key v :: seen) v d, e.2 = d + 1 :=
    fun e he ↦ (mem_entries.1 he).2.2.2
  -- the depths of the new queue are those of the node and the one after it
  have hdepths : ∀ e ∈ rest ++ entries key adj limit (key v :: seen) v d, d ≤ e.2 ∧ e.2 ≤ d + 1 := by
    intro e he
    rcases List.mem_append.1 he with he | he
    · exact ⟨hhead e he, hclose e he⟩
    · rw [hnew e he]
      exact ⟨Nat.le_succ d, le_refl _⟩
  refine ⟨?_, ?_, ?_, ?_, ?_⟩
  · refine List.pairwise_append.2 ⟨?_, ?_, fun e he e' he' ↦ ?_⟩
    · obtain ⟨⟨skipped, rfl, -⟩, -⟩ := next_eq_some hnext
      exact (List.pairwise_cons.1 (List.pairwise_append.1 h.sorted).2.1).2
    · refine List.pairwise_of_forall_mem_list fun e he e' he' ↦ ?_
      rw [hnew e he, hnew e' he']
    · rw [hnew e' he']
      exact hclose e he
  · intro e he e' he'
    have hlow := (hdepths e he).1
    have hhigh := (hdepths e' he').2
    omega
  · intro y hy e he
    rcases List.mem_append.1 hy with hy | hy
    · exact (h.past y hy (v, d) hmem).trans (hdepths e he).1
    · rw [List.mem_singleton.1 hy]
      exact (hdepths e he).1
  · intro hlimit
    exact (h.start hlimit).step h hseen hnext (by simpa using hlimit) _
  · intro y hy hlt w hw
    rcases List.mem_append.1 hy with hy | hy
    · have hle : ((y.2 + 1 : ℕ) : ℤ) ≤ limit := by
        push_cast
        omega
      exact (h.closed y hy hlt w hw).step h hseen hnext hle _
    · rw [List.mem_singleton.1 hy] at hlt hw ⊢
      -- a neighbour is known already, or is put into the queue
      by_cases hknown : key w ∈ key v :: seen
      · rcases List.mem_cons.1 hknown with heq | hmem'
        · exact .inl ⟨(v, d), List.mem_append_right _ (List.mem_singleton_self _), heq.symm, Nat.le_succ d⟩
        · obtain ⟨z, hz, hkey⟩ := (hseen _).1 hmem'
          refine .inl ⟨z, List.mem_append_left _ hz, hkey, ?_⟩
          exact (h.past z hz (v, d) hmem).trans (Nat.le_succ d)
      · refine .inr ⟨(w, d + 1), List.mem_append_right _ ?_, rfl, le_refl _⟩
        exact mem_entries.2 ⟨hlt, hw, hknown, rfl⟩

/-- When the queue is used up, every key within the limit was visited. -/
theorem Inv.complete (h : Inv key adj limit s visited queue)
    (hseen : ∀ k, k ∈ seen ↔ ∃ y ∈ visited, key y.1 = k) (hnext : next key limit seen queue = none)
    (hadj : ∀ v v', key v = key v' → ∀ w ∈ adj v, ∃ w' ∈ adj v', key w' = key w) {n : ℕ} {k : κ}
    (hwalk : KeyWalk key adj s n k) (hn : (n : ℤ) ≤ limit) : ∃ y ∈ visited, key y.1 = k ∧ y.2 ≤ n := by
  have hsettled : ∀ {k : κ} {n : ℕ}, (n : ℤ) ≤ limit → Pending key visited queue k n →
      ∃ y ∈ visited, key y.1 = k ∧ y.2 ≤ n := by
    rintro k n hn (hvisited | ⟨e, he, rfl, hle⟩)
    · exact hvisited
    · exact h.visited_of_skipped hseen he (next_eq_none hnext e he) hn hle
  induction hwalk with
  | nil => exact hsettled hn (h.start (by simpa using hn))
  | @snoc n v w hwalk hw ih =>
    push_cast at hn
    obtain ⟨y, hy, hkey, hle⟩ := ih (by omega)
    obtain ⟨w', hw', hsame⟩ := hadj v y.1 hkey.symm w hw
    obtain ⟨z, hz, hzkey, hzle⟩ := hsettled (by push_cast; omega) (h.closed y hy (by omega) w' hw')
    exact ⟨z, hz, hzkey.trans hsame, hzle.trans (Nat.succ_le_succ hle)⟩

theorem Inv.complete_search (hadj : ∀ v v', key v = key v' → ∀ w ∈ adj v, ∃ w' ∈ adj v', key w' = key w)
    {m : ℕ} (h : Inv key adj limit s visited queue) (hseen : ∀ k, k ∈ seen ↔ ∃ y ∈ visited, key y.1 = k)
    (hstops : (search key adj limit m seen queue).length < m) {n : ℕ} {k : κ}
    (hwalk : KeyWalk key adj s n k) (hn : (n : ℤ) ≤ limit) :
    ∃ y ∈ visited ++ search key adj limit m seen queue, key y.1 = k := by
  induction m generalizing visited queue seen with
  | zero => exact absurd hstops (Nat.not_lt_zero _)
  | succ m ih =>
    rw [search] at hstops ⊢
    cases hnext : next key limit seen queue with
    | none =>
      obtain ⟨y, hy, hkey, -⟩ := h.complete hseen hnext hadj hwalk hn
      exact ⟨y, List.mem_append_left _ hy, hkey⟩
    | some x =>
      obtain ⟨⟨v, d⟩, rest⟩ := x
      rw [hnext] at hstops
      have hseen' : ∀ k, k ∈ key v :: seen ↔ ∃ y ∈ visited ++ [(v, d)], key y.1 = k := by
        intro k
        rw [List.mem_cons, hseen]
        simp only [List.mem_append, List.mem_singleton, or_and_right, exists_or, exists_eq_left]
        rw [or_comm, eq_comm (a := k)]
      have hrest := ih (h.step hseen hnext) hseen' (Nat.lt_of_succ_lt_succ hstops)
      rwa [List.append_assoc, List.singleton_append] at hrest

/-- **Completeness.** A search that stops before its bound has visited every key that a walk within the limit
reaches, when what can be reached from a node depends on its key only. -/
theorem search_complete (hadj : ∀ v v', key v = key v' → ∀ w ∈ adj v, ∃ w' ∈ adj v', key w' = key w) {m : ℕ}
    (hstops : (search key adj limit m [] [(s, 0)]).length < m) {n : ℕ} {k : κ}
    (hwalk : KeyWalk key adj s n k) (hn : (n : ℤ) ≤ limit) :
    k ∈ (search key adj limit m [] [(s, 0)]).map fun e ↦ key e.1 := by
  have hinit : Inv key adj limit s [] [(s, 0)] := Inv.init
  obtain ⟨y, hy, hkey⟩ := hinit.complete_search hadj (fun k ↦ by simp) hstops hwalk hn
  exact List.mem_map.2 ⟨y, hy, hkey⟩

end BreadthFirst
