import Mathlib.Algebra.GroupWithZero.Nat
import Mathlib.Data.List.MinMax
import Mathlib.Logic.Relation
import Sentrik.Checks.Client
import Sentrik.Library.JsonReader

/-!
# Context compaction

The context of a brain is made to fit a budget of characters: long strings are shortened, then the longest list
is trimmed from its tail, one item at a time, and then the largest key is dropped, one at a time. A note says
what was removed, and is added under a key of its own.

Both loops compare the **sum of two sizes** with the budget, that of what is left and that of the note. What is
returned is one document, and the key of the note and its separators are no part of the sum: up to sixteen
characters more than the loops have seen (`overhead`).

What is removed in which order does not depend on the budget: the *stages* of a context (`stage`) are a sequence
of their own, and the loops stop at the first one whose sum is within the budget. By `compacted_iff` the result
meets its budget exactly when that stage has room for the key.
-/

namespace Sentrik

namespace Compaction

/-! ### The code -/

/-- `len(json.dumps(value))` -/
def size (value : Json) : ℕ := (JsonText.print value).length

/-- What was removed. -/
structure Note where
  strings_shortened : ℕ := 0
  lists_trimmed : List (Text × ℕ) := []
  keys_dropped : List Text := []

def number (n : ℕ) : Json := .num (toString n).toList (n == 0)

def Note.json (note : Note) : Json := .obj (Dict.recipe [
  ("strings_shortened", number note.strings_shortened),
  ("lists_trimmed", .obj (note.lists_trimmed.map fun e ↦ (e.1, number e.2))),
  ("keys_dropped", .arr (note.keys_dropped.map .str))])

mutual

/-- Shorten the long strings of a document. -/
def shorten (max_str : ℕ) : Json → Json
  | .str t => if max_str < t.length then .str (t.take max_str ++ ['…']) else .str t
  | .arr items => .arr (shortenItems max_str items)
  | .obj fields => .obj (shortenFields max_str fields)
  | value => value

def shortenItems (max_str : ℕ) : List Json → List Json
  | [] => []
  | item :: rest => shorten max_str item :: shortenItems max_str rest

def shortenFields (max_str : ℕ) : List (Text × Json) → List (Text × Json)
  | [] => []
  | (key, value) :: rest => (key, shorten max_str value) :: shortenFields max_str rest

end

mutual

/-- How many strings that shortens. -/
def longStrings (max_str : ℕ) : Json → ℕ
  | .str t => if max_str < t.length then 1 else 0
  | .arr items => longStringsItems max_str items
  | .obj fields => longStringsFields max_str fields
  | _ => 0

def longStringsItems (max_str : ℕ) : List Json → ℕ
  | [] => 0
  | item :: rest => longStrings max_str item + longStringsItems max_str rest

def longStringsFields (max_str : ℕ) : List (Text × Json) → ℕ
  | [] => 0
  | (_, value) :: rest => longStrings max_str value + longStringsFields max_str rest

end

/-- What is left, and the note. -/
structure Stage where
  out : Dict
  note : Note

/-- What the loops compare with the budget. -/
def Stage.measured (s : Stage) : ℕ := size (.obj s.out) + size s.note.json

/-- The items of a list with more than one. -/
def longList : Json → Option (List Json)
  | .arr items => if 1 < items.length then some items else none
  | _ => none

/-- The top-level lists that can be trimmed. -/
def lists (out : Dict) : List (Text × List Json) := out.filterMap fun e ↦ (longList e.2).map (e.1, ·)

/-- `d[k] = d.get(k, 0) + 1` -/
def bump : List (Text × ℕ) → Text → List (Text × ℕ)
  | [], key => [(key, 1)]
  | (k, n) :: rest, key => if k = key then (k, n + 1) :: rest else (k, n) :: bump rest key

/-- Trim the longest list by one item. -/
def trimOnce (s : Stage) : Option Stage :=
  ((lists s.out).argmax fun e ↦ size (.arr e.2)).map fun e ↦
    { out := s.out.setItem e.1 (.arr e.2.dropLast)
      note := { s.note with lists_trimmed := bump s.note.lists_trimmed e.1 } }

/-- Drop the largest key. -/
def dropOnce (s : Stage) : Option Stage :=
  (s.out.argmax fun e ↦ size e.2).map fun e ↦
    { out := s.out.filter fun e' ↦ e'.1 ≠ e.1
      note := { s.note with keys_dropped := s.note.keys_dropped ++ [e.1] } }

/-- Go on while the sum is over the budget, as often as the fuel allows. -/
def whileOver (limit : ℕ) (once : Stage → Option Stage) : ℕ → Stage → Stage
  | 0, s => s
  | n + 1, s =>
    if s.measured ≤ limit then s
    else
      match once s with
      | some s' => whileOver limit once n s'
      | none => s

/-- The items of the top-level lists: there are no more trims. -/
def itemCount (out : Dict) : ℕ := (out.map fun e ↦ ((Json.list? e.2).getD []).length).sum

/-- `out["_compacted"] = note` -/
def marked (s : Stage) : Dict := s.out.setItem "_compacted".toList s.note.json

/-- The context with its long strings shortened. -/
def start (ctx : Dict) (max_str : ℕ) : Stage where
  out := shortenFields max_str ctx
  note := { strings_shortened := longStringsFields max_str ctx }

end Compaction

open Compaction

def _compact_context (ctx : Dict) (limit : ℕ) (max_str : ℕ) : Dict :=
  if size (.obj ctx) ≤ limit then ctx
  else
    let out := ((JsonText.loads (JsonText.print (.obj ctx))).bind Json.dict?).getD []
    let s := start out max_str
    let s := whileOver limit trimOnce (itemCount s.out) s
    let s := whileOver limit dropOnce s.out.length s
    marked s

/-- Two texts of which one stays: the result is three characters over its budget. -/
def twoTexts : Dict := Dict.recipe [("a", .str (List.replicate 110 'x')), ("b", .str (List.replicate 110 'y'))]

example : size (.obj (_compact_context twoTexts 200 200)) = 203 := by decide +kernel

namespace Compaction

/-! ### Sizes -/

/-- What an entry adds to the printed object, with the separator before or after it. -/
def entrySize (e : Text × Json) : ℕ := (JsonText.dumpsText e.1).length + size e.2 + 4

theorem length_printFields_false (d : Dict) :
    (JsonText.printFields false d).length = (d.map entrySize).sum + 1 := by
  induction d with
  | nil => rfl
  | cons e rest ih =>
    have hcolon : ": ".toList.length = 2 := by decide
    have hcomma : ", ".toList.length = 2 := by decide
    simp only [JsonText.printFields, Bool.false_eq_true, if_false, List.length_append, ih, List.map_cons,
      List.sum_cons, entrySize, size, hcolon, hcomma]
    omega

theorem size_obj_nil : size (.obj []) = 2 := rfl

/-- The first entry has no separator before it. -/
theorem size_obj {d : Dict} (h : d ≠ []) : size (.obj d) = (d.map entrySize).sum := by
  obtain ⟨e, rest, rfl⟩ := List.exists_cons_of_ne_nil h
  have hcolon : ": ".toList.length = 2 := by decide
  simp only [size, JsonText.print, JsonText.printFields, if_true, List.nil_append, List.length_append,
    List.length_cons, length_printFields_false, List.map_cons, List.sum_cons, entrySize, hcolon]
  omega

theorem setItem_of_notMem {d : Dict} {key : Text} {value : Json} (h : Dict.get? d key = none) :
    d.setItem key value = d ++ [(key, value)] := by
  induction d with
  | nil => rfl
  | cons e rest ih =>
    obtain ⟨k, v⟩ := e
    rw [Dict.get?, List.lookup_cons] at h
    by_cases hk : key = k
    · rw [hk, beq_self_eq_true] at h
      cases h
    · rw [beq_false_of_ne hk] at h
      rw [Dict.setItem, if_neg (Ne.symm hk), List.cons_append, ih h]

/-- Where the key is there already, the new value takes the place of the old one. -/
theorem sum_setItem {d : Dict} {key : Text} {old : Json} (value : Json) (h : Dict.get? d key = some old) :
    ((d.setItem key value).map entrySize).sum + size old = (d.map entrySize).sum + size value := by
  induction d with
  | nil => cases h
  | cons e rest ih =>
    obtain ⟨k, v⟩ := e
    rw [Dict.get?, List.lookup_cons] at h
    by_cases hk : key = k
    · rw [hk, beq_self_eq_true] at h
      cases h
      rw [Dict.setItem, if_pos hk.symm, List.map_cons, List.map_cons, List.sum_cons, List.sum_cons, entrySize,
        entrySize]
      dsimp only
      omega
    · rw [beq_false_of_ne hk] at h
      have hrest := ih h
      rw [Dict.setItem, if_neg (Ne.symm hk), List.map_cons, List.map_cons, List.sum_cons, List.sum_cons]
      omega

/-- What the marked object has more than the sum of the two sizes: the key of the note and its separators, or
less, where a value of the context gives its place to the note. -/
def overhead (out : Dict) : ℤ :=
  match Dict.get? out "_compacted".toList with
  | some old => -(size old : ℤ)
  | none => if out = [] then 14 else 16

theorem size_marked (s : Stage) : (size (.obj (marked s)) : ℤ) = s.measured + overhead s.out := by
  have hkey : (JsonText.dumpsText "_compacted".toList).length = 12 := by decide
  rw [marked, Stage.measured, overhead]
  cases h : Dict.get? s.out "_compacted".toList with
  | some old =>
    have hne : s.out ≠ [] := by
      intro hnil
      rw [hnil] at h
      cases h
    have hne' : s.out.setItem "_compacted".toList s.note.json ≠ [] := by
      intro hnil
      have hempty := Dict.isEmpty_setItem s.out "_compacted".toList s.note.json
      rw [hnil] at hempty
      cases hempty
    have hsum := sum_setItem s.note.json h
    rw [size_obj hne, size_obj hne']
    show (_ : ℤ) = _ + -(size old : ℤ)
    omega
  | none =>
    rw [setItem_of_notMem h]
    by_cases hnil : s.out = []
    · rw [if_pos hnil, hnil, List.nil_append, size_obj (List.cons_ne_nil _ _), size_obj_nil, List.map_cons,
        List.sum_cons, List.map_nil, List.sum_nil, entrySize, hkey]
      push_cast
      omega
    · rw [if_neg hnil, size_obj hnil, size_obj (List.append_ne_nil_of_right_ne_nil _ (List.cons_ne_nil _ _)),
        List.map_append, List.sum_append, List.map_cons, List.sum_cons, List.map_nil, List.sum_nil, entrySize, hkey]
      push_cast
      omega

/-! ### What a removal keeps -/

mutual

/-- The value, up to strings that were shortened. -/
inductive Shortened (max_str : ℕ) : Json → Json → Prop
  | same (value : Json) : Shortened max_str value value
  | str (t : Text) (h : max_str < t.length) : Shortened max_str (.str t) (.str (t.take max_str ++ ['…']))
  | arr {items items' : List Json} (h : ShortenedItems max_str items items') :
    Shortened max_str (.arr items) (.arr items')
  | obj {fields fields' : List (Text × Json)} (h : ShortenedFields max_str fields fields') :
    Shortened max_str (.obj fields) (.obj fields')

inductive ShortenedItems (max_str : ℕ) : List Json → List Json → Prop
  | nil : ShortenedItems max_str [] []
  | cons {item item' : Json} {rest rest' : List Json} (h : Shortened max_str item item')
    (hrest : ShortenedItems max_str rest rest') : ShortenedItems max_str (item :: rest) (item' :: rest')

inductive ShortenedFields (max_str : ℕ) : List (Text × Json) → List (Text × Json) → Prop
  | nil : ShortenedFields max_str [] []
  | cons {key : Text} {value value' : Json} {rest rest' : List (Text × Json)}
    (h : Shortened max_str value value') (hrest : ShortenedFields max_str rest rest') :
    ShortenedFields max_str ((key, value) :: rest) ((key, value') :: rest')

end

mutual

theorem shortened_shorten (max_str : ℕ) (value : Json) : Shortened max_str value (shorten max_str value) := by
  cases value with
  | str t =>
    rw [shorten]
    split
    next h => exact .str t h
    next => exact .same _
  | arr items =>
    rw [shorten]
    exact .arr (shortened_shortenItems max_str items)
  | obj fields =>
    rw [shorten]
    exact .obj (shortened_shortenFields max_str fields)
  | null | bool | num => exact .same _

theorem shortened_shortenItems (max_str : ℕ) (items : List Json) :
    ShortenedItems max_str items (shortenItems max_str items) := by
  cases items with
  | nil => exact .nil
  | cons item rest => exact .cons (shortened_shorten max_str item) (shortened_shortenItems max_str rest)

theorem shortened_shortenFields (max_str : ℕ) (fields : List (Text × Json)) :
    ShortenedFields max_str fields (shortenFields max_str fields) := by
  cases fields with
  | nil => exact .nil
  | cons e rest => exact .cons (shortened_shorten max_str e.2) (shortened_shortenFields max_str rest)

end

/-- The value, up to shortened strings and, if it is a list, a trimmed tail. -/
def Kept (max_str : ℕ) (original value : Json) : Prop :=
  ∃ whole, Shortened max_str original whole ∧
    (value = whole ∨ ∃ items n, whole = .arr items ∧ value = .arr (items.take n))

theorem Kept.dropLast {max_str : ℕ} {original : Json} {items : List Json} (h : Kept max_str original (.arr items)) :
    Kept max_str original (.arr items.dropLast) := by
  obtain ⟨whole, hwhole, rfl | ⟨all, n, rfl, hitems⟩⟩ := h
  · exact ⟨_, hwhole, .inr ⟨items, items.length - 1, rfl, by rw [List.dropLast_eq_take]⟩⟩
  · cases hitems
    exact ⟨_, hwhole, .inr ⟨all, _, rfl, by rw [List.dropLast_eq_take, List.take_take]⟩⟩

/-- What holds of every stage: each key that is left holds its value, up to what may be cut, and each key that is
not left is in the note. -/
structure Held (ctx : Dict) (max_str : ℕ) (s : Stage) : Prop where
  nodup : (s.out.map Prod.fst).Nodup
  kept : ∀ e ∈ s.out, ∃ original, (e.1, original) ∈ ctx ∧ Kept max_str original e.2
  named : ∀ key ∈ ctx.map Prod.fst, key ∉ s.out.map Prod.fst → key ∈ s.note.keys_dropped

theorem map_fst_shortenFields (max_str : ℕ) (fields : List (Text × Json)) :
    (shortenFields max_str fields).map Prod.fst = fields.map Prod.fst := by
  induction fields with
  | nil => rfl
  | cons e rest ih =>
    rw [shortenFields, List.map_cons, List.map_cons, ih]

theorem exists_of_mem_shortenFields {max_str : ℕ} {fields : List (Text × Json)} {e : Text × Json}
    (h : e ∈ shortenFields max_str fields) : ∃ original, (e.1, original) ∈ fields ∧ e.2 = shorten max_str original := by
  induction fields with
  | nil => cases h
  | cons e' rest ih =>
    obtain ⟨key, value⟩ := e'
    rw [shortenFields] at h
    rcases List.mem_cons.1 h with rfl | h
    · exact ⟨value, List.mem_cons_self, rfl⟩
    · obtain ⟨original, hmem, heq⟩ := ih h
      exact ⟨original, List.mem_cons_of_mem _ hmem, heq⟩

theorem held_start {ctx : Dict} (h : (ctx.map Prod.fst).Nodup) (max_str : ℕ) : Held ctx max_str (start ctx max_str) := by
  refine ⟨?_, ?_, ?_⟩
  · show ((shortenFields max_str ctx).map Prod.fst).Nodup
    rw [map_fst_shortenFields]
    exact h
  · intro e he
    obtain ⟨original, hmem, heq⟩ := exists_of_mem_shortenFields he
    refine ⟨original, hmem, shorten max_str original, shortened_shorten max_str original, .inl heq⟩
  · intro key hkey hout
    refine absurd hkey ?_
    rw [← map_fst_shortenFields max_str ctx]
    exact hout

/-! ### What a removal does -/

theorem trimOnce_eq_some {s s' : Stage} (h : trimOnce s = some s') :
    ∃ key items, (key, .arr items) ∈ s.out ∧ 1 < items.length ∧
      s' = { out := s.out.setItem key (.arr items.dropLast)
             note := { s.note with lists_trimmed := bump s.note.lists_trimmed key } } := by
  obtain ⟨⟨key, items⟩, hmax, rfl⟩ := Option.map_eq_some_iff.1 h
  obtain ⟨⟨k, value⟩, he, hlong⟩ := List.mem_filterMap.1 (List.argmax_mem hmax)
  obtain ⟨items', hlist, hpair⟩ := Option.map_eq_some_iff.1 hlong
  cases hpair
  cases value with
  | arr l =>
    rw [longList] at hlist
    split at hlist
    next hlen =>
      cases hlist
      exact ⟨_, _, he, hlen, rfl⟩
    next => cases hlist
  | null | bool | num | str | obj => cases hlist

theorem dropOnce_eq_some {s s' : Stage} (h : dropOnce s = some s') :
    ∃ e ∈ s.out, s' = { out := s.out.filter fun e' ↦ e'.1 ≠ e.1
                        note := { s.note with keys_dropped := s.note.keys_dropped ++ [e.1] } } := by
  obtain ⟨e, hmax, rfl⟩ := Option.map_eq_some_iff.1 h
  exact ⟨e, List.argmax_mem hmax, rfl⟩

theorem trimOnce_eq_none {s : Stage} : trimOnce s = none ↔ lists s.out = [] := by
  rw [trimOnce, Option.map_eq_none_iff, List.argmax_eq_none]

theorem dropOnce_eq_none {s : Stage} : dropOnce s = none ↔ s.out = [] := by
  rw [dropOnce, Option.map_eq_none_iff, List.argmax_eq_none]

theorem map_fst_setItem {d : Dict} {key : Text} {value : Json} (h : key ∈ d.map Prod.fst) :
    (d.setItem key value).map Prod.fst = d.map Prod.fst := by
  induction d with
  | nil => cases h
  | cons e rest ih =>
    obtain ⟨k, v⟩ := e
    rw [Dict.setItem]
    split
    · rfl
    next hk =>
      rw [List.map_cons, List.map_cons, ih ((List.mem_cons.1 h).resolve_left (Ne.symm hk))]

theorem mem_setItem {d : Dict} {key : Text} {value : Json} {e : Text × Json} (h : e ∈ d.setItem key value) :
    e = (key, value) ∨ e ∈ d := by
  induction d with
  | nil => exact .inl (List.mem_singleton.1 h)
  | cons e' rest ih =>
    obtain ⟨k, v⟩ := e'
    rw [Dict.setItem] at h
    split at h
    next hk =>
      rcases List.mem_cons.1 h with rfl | h
      · exact .inl (by rw [hk])
      · exact .inr (List.mem_cons_of_mem _ h)
    next =>
      rcases List.mem_cons.1 h with rfl | h
      · exact .inr List.mem_cons_self
      · exact (ih h).imp id (List.mem_cons_of_mem _)

theorem Held.trimOnce {ctx : Dict} {max_str : ℕ} {s s' : Stage} (hs : Held ctx max_str s)
    (h : trimOnce s = some s') : Held ctx max_str s' := by
  obtain ⟨key, items, hmem, -, rfl⟩ := trimOnce_eq_some h
  have hkeys : (s.out.setItem key (.arr items.dropLast)).map Prod.fst = s.out.map Prod.fst :=
    map_fst_setItem (List.mem_map.2 ⟨_, hmem, rfl⟩)
  refine ⟨?_, ?_, ?_⟩
  · show ((s.out.setItem key (.arr items.dropLast)).map Prod.fst).Nodup
    rw [hkeys]
    exact hs.nodup
  · intro e he
    rcases mem_setItem he with rfl | he
    · obtain ⟨original, horiginal, hkept⟩ := hs.kept _ hmem
      exact ⟨original, horiginal, hkept.dropLast⟩
    · exact hs.kept e he
  · intro k hk hout
    refine hs.named k hk ?_
    rw [← hkeys]
    exact hout

theorem Held.dropOnce {ctx : Dict} {max_str : ℕ} {s s' : Stage} (hs : Held ctx max_str s)
    (h : dropOnce s = some s') : Held ctx max_str s' := by
  obtain ⟨e, -, rfl⟩ := dropOnce_eq_some h
  refine ⟨?_, ?_, ?_⟩
  · exact hs.nodup.sublist (List.filter_sublist.map _)
  · intro e' he'
    exact hs.kept e' (List.mem_filter.1 he').1
  · intro k hk hout
    -- the key was there before and is the dropped one, or had been dropped earlier
    by_cases hke : k = e.1
    · exact List.mem_append_right _ (List.mem_singleton.2 hke)
    · refine List.mem_append_left _ (hs.named k hk fun hin ↦ hout ?_)
      obtain ⟨e', he', rfl⟩ := List.mem_map.1 hin
      exact List.mem_map.2 ⟨e', List.mem_filter.2 ⟨he', decide_eq_true hke⟩, rfl⟩

/-! ### The loops end -/

/-- One round of a loop: the sum is over the budget, and something is removed. -/
def Removal (limit : ℕ) (once : Stage → Option Stage) (s s' : Stage) : Prop :=
  limit < s.measured ∧ once s = some s'

/-- A loop runs from one stage to another, and ends there. -/
def Runs (limit : ℕ) (once : Stage → Option Stage) (s s' : Stage) : Prop :=
  Relation.ReflTransGen (Removal limit once) s s' ∧ (s'.measured ≤ limit ∨ once s' = none)

/-- With a measure that goes down from round to round, as much fuel as the measure is enough. -/
theorem runs_whileOver {limit : ℕ} {once : Stage → Option Stage} {P : Stage → Prop} (measure : Stage → ℕ)
    (honce : ∀ s s', P s → once s = some s' → P s' ∧ measure s' < measure s) {n : ℕ} {s : Stage}
    (hs : P s) (hn : measure s ≤ n) :
    Runs limit once s (whileOver limit once n s) ∧ P (whileOver limit once n s) := by
  induction n generalizing s with
  | zero =>
    refine ⟨⟨.refl, .inr ?_⟩, hs⟩
    show once s = none
    cases h : once s with
    | none => rfl
    | some s' =>
      have hless := (honce s s' hs h).2
      omega
  | succ n ih =>
    rw [whileOver]
    split
    next hle => exact ⟨⟨.refl, .inl hle⟩, hs⟩
    next hlt =>
      cases h : once s with
      | none => exact ⟨⟨.refl, .inr h⟩, hs⟩
      | some s' =>
        obtain ⟨hs', hless⟩ := honce s s' hs h
        obtain ⟨⟨hreach, hend⟩, hfinal⟩ := ih hs' (by omega)
        exact ⟨⟨.head ⟨not_le.1 hlt, h⟩ hreach, hend⟩, hfinal⟩

theorem itemCount_setItem {d : Dict} (hd : (d.map Prod.fst).Nodup) {key : Text} {items : List Json}
    (items' : List Json) (h : (key, .arr items) ∈ d) :
    itemCount (d.setItem key (.arr items')) + items.length = itemCount d + items'.length := by
  induction d with
  | nil => cases h
  | cons e rest ih =>
    obtain ⟨k, v⟩ := e
    obtain ⟨hfresh, hrest⟩ := List.nodup_cons.1 hd
    rw [Dict.setItem]
    by_cases hk : k = key
    · rw [if_pos hk]
      rcases List.mem_cons.1 h with heq | hin
      · cases heq
        show items'.length + itemCount rest + items.length = items.length + itemCount rest + items'.length
        omega
      · exact absurd (List.mem_map.2 ⟨_, hin, hk.symm⟩) hfresh
    · rw [if_neg hk]
      have hin : (key, .arr items) ∈ rest :=
        (List.mem_cons.1 h).resolve_left fun heq ↦ hk (congrArg Prod.fst heq).symm
      have hsum := ih hrest hin
      show _ + itemCount (Dict.setItem rest key (.arr items')) + items.length = _ + itemCount rest + items'.length
      omega

theorem itemCount_trimOnce {s s' : Stage} (hs : (s.out.map Prod.fst).Nodup) (h : trimOnce s = some s') :
    itemCount s'.out < itemCount s.out := by
  obtain ⟨key, items, hmem, hlen, rfl⟩ := trimOnce_eq_some h
  have hcount := itemCount_setItem hs items.dropLast hmem
  rw [List.length_dropLast] at hcount
  show itemCount (s.out.setItem key (.arr items.dropLast)) < itemCount s.out
  omega

theorem length_dropOnce {s s' : Stage} (h : dropOnce s = some s') : s'.out.length < s.out.length := by
  obtain ⟨e, he, rfl⟩ := dropOnce_eq_some h
  exact List.length_filter_lt_length_iff_exists.2 ⟨e, he, by rw [decide_eq_true_iff, not_not]⟩

/-! ### The stages of a context -/

/-- Trim while a list has more than one item, drop after that. -/
def next (s : Stage) : Option Stage := trimOnce s <|> dropOnce s

/-- The stages of a context, whatever its budget is; once nothing is left they stay as they are. -/
def stage (ctx : Dict) (max_str : ℕ) : ℕ → Stage
  | 0 => start ctx max_str
  | n + 1 => (next (stage ctx max_str n)).getD (stage ctx max_str n)

/-- The first stage whose sum is within the budget. -/
def FirstWithin (ctx : Dict) (max_str limit n : ℕ) : Prop :=
  (stage ctx max_str n).measured ≤ limit ∧ ∀ m < n, limit < (stage ctx max_str m).measured

/-- A stage that the loops can be in: all stages before it were over the budget. -/
def Reached (ctx : Dict) (max_str limit : ℕ) (s : Stage) : Prop :=
  ∃ n, stage ctx max_str n = s ∧ ∀ m < n, limit < (stage ctx max_str m).measured

theorem Reached.next {ctx : Dict} {max_str limit : ℕ} {s s' : Stage} (hs : Reached ctx max_str limit s)
    (hover : limit < s.measured) (h : next s = some s') : Reached ctx max_str limit s' := by
  obtain ⟨n, rfl, hbefore⟩ := hs
  refine ⟨n + 1, ?_, ?_⟩
  · rw [stage, h, Option.getD_some]
  · intro m hm
    rcases Nat.lt_succ_iff_lt_or_eq.1 hm with hlt | rfl
    · exact hbefore m hlt
    · exact hover

theorem Reached.trims {ctx : Dict} {max_str limit : ℕ} {s s' : Stage} (hs : Reached ctx max_str limit s)
    (h : Relation.ReflTransGen (Removal limit trimOnce) s s') : Reached ctx max_str limit s' := by
  induction h with
  | refl => exact hs
  | tail _ hstep ih =>
    refine ih.next hstep.1 ?_
    rw [Compaction.next, hstep.2]
    rfl

/-- Dropping a key leaves no list to trim where there was none. -/
theorem trimOnce_dropOnce {s s' : Stage} (hs : trimOnce s = none) (h : dropOnce s = some s') :
    trimOnce s' = none := by
  obtain ⟨e, -, rfl⟩ := dropOnce_eq_some h
  rw [trimOnce_eq_none] at hs ⊢
  have hsub : (lists (s.out.filter fun e' ↦ e'.1 ≠ e.1)).Sublist (lists s.out) := List.filter_sublist.filterMap _
  rw [hs] at hsub
  exact List.sublist_nil.1 hsub

theorem Reached.drops {ctx : Dict} {max_str limit : ℕ} {s s' : Stage} (hs : Reached ctx max_str limit s)
    (hnone : trimOnce s = none) (h : Relation.ReflTransGen (Removal limit dropOnce) s s') :
    Reached ctx max_str limit s' ∧ trimOnce s' = none := by
  induction h with
  | refl => exact ⟨hs, hnone⟩
  | tail _ hstep ih =>
    obtain ⟨hreached, hlast⟩ := ih
    refine ⟨hreached.next hstep.1 ?_, trimOnce_dropOnce hlast hstep.2⟩
    rw [Compaction.next, hlast]
    exact hstep.2

/-- A loop that is within its budget does not start. -/
theorem eq_of_runs {limit : ℕ} {once : Stage → Option Stage} {s s' : Stage} (hle : s.measured ≤ limit)
    (h : Runs limit once s s') : s' = s := by
  rcases Relation.ReflTransGen.cases_head h.1 with rfl | ⟨_, hstep, -⟩
  · rfl
  · exact absurd hstep.1 (not_lt.2 hle)

/-- The stage that both loops end at: within the budget, or nothing is left. -/
theorem reached_of_runs {ctx : Dict} {max_str limit : ℕ} {s₁ s₂ : Stage}
    (htrim : Runs limit trimOnce (start ctx max_str) s₁) (hdrop : Runs limit dropOnce s₁ s₂) :
    Reached ctx max_str limit s₂ ∧ (s₂.measured ≤ limit ∨ (s₂.out = [] ∧ Compaction.next s₂ = none)) := by
  have hstart : Reached ctx max_str limit (start ctx max_str) := ⟨0, rfl, by omega⟩
  have hreached := hstart.trims htrim.1
  rcases htrim.2 with hle | hnone
  · rw [eq_of_runs hle hdrop]
    exact ⟨hreached, .inl hle⟩
  · obtain ⟨hlast, hlists⟩ := hreached.drops hnone hdrop.1
    refine ⟨hlast, hdrop.2.imp id fun hempty ↦ ⟨dropOnce_eq_none.1 hempty, ?_⟩⟩
    rw [Compaction.next, hlists, hempty]
    rfl

/-- Once nothing is left the stages stay as they are. -/
theorem stage_of_next_eq_none {ctx : Dict} {max_str n : ℕ} (h : Compaction.next (stage ctx max_str n) = none)
    (k : ℕ) : stage ctx max_str (n + k) = stage ctx max_str n := by
  induction k with
  | zero => rfl
  | succ k ih =>
    rw [Nat.add_succ, stage, ih, h, Option.getD_none]

/-- The loops end at the first stage within the budget, if there is one. -/
theorem firstWithin_of_reached {ctx : Dict} {max_str limit n : ℕ} {s : Stage} (hs : Reached ctx max_str limit s)
    (hend : s.measured ≤ limit ∨ (s.out = [] ∧ Compaction.next s = none)) (hn : FirstWithin ctx max_str limit n) :
    s = stage ctx max_str n := by
  obtain ⟨k, rfl, hbefore⟩ := hs
  rcases lt_trichotomy k n with hlt | rfl | hgt
  · have hover := hn.2 k hlt
    obtain ⟨-, hnone⟩ := hend.resolve_left (not_le.2 hover)
    have hstay := stage_of_next_eq_none hnone (n - k)
    rw [Nat.add_sub_cancel' hlt.le] at hstay
    exact hstay.symm
  · rfl
  · exact absurd hn.1 (not_le.2 (hbefore n hgt))

/-! ### What compaction returns -/

/-- A document that a dictionary of the program can be: each key once, and numbers as they are printed. -/
structure Document (ctx : Dict) : Prop where
  nodup : (ctx.map Prod.fst).Nodup
  numbers : JsonText.NumbersOk (.obj ctx)

theorem reload {ctx : Dict} (h : Document ctx) :
    ((JsonText.loads (JsonText.print (.obj ctx))).bind Json.dict?).getD [] = ctx := by
  rw [JsonText.loads_print h.numbers]
  rfl

/-- Both loops end, and compaction returns what they end at, marked with the note. -/
theorem exists_runs {ctx : Dict} {limit : ℕ} (h : Document ctx) (hover : ¬size (.obj ctx) ≤ limit) (max_str : ℕ) :
    ∃ s₁ s₂, Runs limit trimOnce (start ctx max_str) s₁ ∧ Runs limit dropOnce s₁ s₂ ∧ Held ctx max_str s₂ ∧
      _compact_context ctx limit max_str = marked s₂ := by
  rw [_compact_context, if_neg hover, reload h]
  have hstart := held_start h.nodup max_str
  obtain ⟨htrim, hheld⟩ := runs_whileOver (fun s ↦ itemCount s.out)
    (fun s s' hs hstep ↦ ⟨Held.trimOnce hs hstep, itemCount_trimOnce hs.nodup hstep⟩) hstart (le_refl _)
  obtain ⟨hdrop, hheld'⟩ := runs_whileOver (fun s ↦ s.out.length)
    (fun s s' hs hstep ↦ ⟨Held.dropOnce hs hstep, length_dropOnce hstep⟩) hheld (le_refl _)
  exact ⟨_, _, htrim, hdrop, hheld', rfl⟩

/-- What compaction is for. -/
structure Compacted (ctx : Dict) (limit max_str : ℕ) : Prop where
  /-- Both loops end. -/
  ends : limit < size (.obj ctx) → ∃ s₁ s₂, Runs limit trimOnce (start ctx max_str) s₁ ∧
    Runs limit dropOnce s₁ s₂ ∧ _compact_context ctx limit max_str = marked s₂
  within : size (.obj (_compact_context ctx limit max_str)) ≤ limit
  unchanged : size (.obj ctx) ≤ limit → _compact_context ctx limit max_str = ctx
  kept : ∀ e ∈ _compact_context ctx limit max_str, e.1 ≠ "_compacted".toList →
    ∃ original, (e.1, original) ∈ ctx ∧ Kept max_str original e.2
  named : ∀ key ∈ ctx.map Prod.fst, key ∉ (_compact_context ctx limit max_str).map Prod.fst →
    ∃ note : Note, Dict.get? (_compact_context ctx limit max_str) "_compacted".toList = some note.json ∧
      key ∈ note.keys_dropped

theorem kept_marked {ctx : Dict} {max_str : ℕ} {s : Stage} (hs : Held ctx max_str s) {e : Text × Json}
    (he : e ∈ marked s) (hne : e.1 ≠ "_compacted".toList) :
    ∃ original, (e.1, original) ∈ ctx ∧ Kept max_str original e.2 := by
  rcases mem_setItem he with rfl | hmem
  · exact absurd rfl hne
  · exact hs.kept e hmem

theorem mem_map_fst_setItem {d : Dict} {key k : Text} (value : Json) (h : k ∈ d.map Prod.fst) :
    k ∈ (d.setItem key value).map Prod.fst := by
  by_cases hin : key ∈ d.map Prod.fst
  · rw [map_fst_setItem hin]
    exact h
  · have hnone : Dict.get? d key = none := by
      rw [Dict.get?, List.lookup_eq_none_iff]
      intro e he
      rw [bne_iff_ne]
      rintro rfl
      exact hin (List.mem_map.2 ⟨e, he, rfl⟩)
    rw [setItem_of_notMem hnone, List.map_append]
    exact List.mem_append_left _ h

theorem named_marked {ctx : Dict} {max_str : ℕ} {s : Stage} (hs : Held ctx max_str s) {key : Text}
    (hkey : key ∈ ctx.map Prod.fst) (hout : key ∉ (marked s).map Prod.fst) :
    Dict.get? (marked s) "_compacted".toList = some s.note.json ∧ key ∈ s.note.keys_dropped := by
  refine ⟨?_, hs.named key hkey fun hin ↦ hout (mem_map_fst_setItem _ hin)⟩
  rw [marked, Dict.get?_setItem, if_pos rfl]

/-- **Compaction meets its budget** exactly when the context fits, or the first stage whose two sizes are within
the budget leaves room for the key of the note. -/
theorem compacted_iff (ctx : Dict) (limit max_str : ℕ) (h : Document ctx) :
    Compacted ctx limit max_str ↔
      size (.obj ctx) ≤ limit ∨
      ∃ n, FirstWithin ctx max_str limit n ∧
        (stage ctx max_str n).measured + overhead (stage ctx max_str n).out ≤ (limit : ℤ) := by
  by_cases hfits : size (.obj ctx) ≤ limit
  · have hsame : _compact_context ctx limit max_str = ctx := by rw [_compact_context, if_pos hfits]
    refine ⟨fun _ ↦ .inl hfits, fun _ ↦ ?_⟩
    refine ⟨fun hover ↦ absurd hfits (not_le.2 hover), ?_, fun _ ↦ hsame, ?_, ?_⟩
    · rw [hsame]
      exact hfits
    · rw [hsame]
      intro e he _
      exact ⟨e.2, he, e.2, .same _, .inl rfl⟩
    · rw [hsame]
      intro key hkey hout
      exact absurd hkey hout
  · obtain ⟨s₁, s₂, htrim, hdrop, hheld, hresult⟩ := exists_runs h hfits max_str
    obtain ⟨hreached, hend⟩ := reached_of_runs htrim hdrop
    have hsize := size_marked s₂
    constructor
    · intro hcompacted
      have hwithin := hcompacted.within
      rw [hresult] at hwithin
      right
      rcases hend with hle | ⟨hnil, -⟩
      · obtain ⟨n, rfl, hbefore⟩ := hreached
        exact ⟨n, ⟨hle, hbefore⟩, by omega⟩
      · -- nothing is left, and the note alone is over the budget or leaves room for its key
        have hover : overhead s₂.out = 14 := by
          rw [hnil]
          rfl
        obtain ⟨n, rfl, hbefore⟩ := hreached
        exact ⟨n, ⟨by omega, hbefore⟩, by omega⟩
    · intro hroom
      obtain ⟨n, hfirst, hroom⟩ := hroom.resolve_left hfits
      rw [← firstWithin_of_reached hreached hend hfirst] at hroom
      refine ⟨fun _ ↦ ⟨s₁, s₂, htrim, hdrop, hresult⟩, ?_, fun hle ↦ absurd hle hfits, ?_, ?_⟩
      · rw [hresult]
        omega
      · rw [hresult]
        intro e he hne
        exact kept_marked hheld he hne
      · rw [hresult]
        intro key hkey hout
        exact ⟨s₂.note, named_marked hheld hkey hout⟩

theorem document_twoTexts : Document twoTexts := by
  refine ⟨by decide, ?_⟩
  show JsonText.NumbersOk (.obj twoTexts)
  simp only [twoTexts, Dict.recipe, List.map_cons, List.map_nil, JsonText.NumbersOk, JsonText.NumbersOkFields,
    and_self]

/-- A budget of ten characters more has room for the key of the note. -/
theorem compacted_twoTexts : Compacted twoTexts 210 200 := by
  refine (compacted_iff twoTexts 210 200 document_twoTexts).2 (.inr ⟨1, ⟨by decide +kernel, ?_⟩, by decide +kernel⟩)
  intro m hm
  rw [Nat.lt_one_iff.1 hm]
  decide +kernel

/-- Dropping one of the two texts makes the sum 187, and the document is 203 characters long. -/
theorem not_compacted_twoTexts : Document twoTexts ∧ ¬Compacted twoTexts 200 200 := by
  refine ⟨document_twoTexts, fun h ↦ ?_⟩
  have hover : ¬size (.obj (_compact_context twoTexts 200 200)) ≤ 200 := by decide +kernel
  exact hover h.within

end Compaction

end Sentrik
