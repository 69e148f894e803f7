import Mathlib.Data.List.Pairwise
import Mathlib.Data.List.Perm.Basic
import Mathlib.Data.List.Sort
import Mathlib.Order.WithBot
import Mathlib.Data.Rat.Defs
import Mathlib.Algebra.Order.Ring.Rat
import Sentrik.Library.Json
import Sentrik.Library.Keyed

/-!
# Loaded documents, and what an encoder makes of them

A loaded YAML document has more than a JSON one: the keys of a mapping may be of any hashable type, and
there are values no JSON encoder knows. It is written in two ways.

* `stored` is what comes back from a JSON column: keys become texts, the last of two keys of one text wins,
  and an unknown value raises.
* `canonical` is what is hashed: the entries of each mapping are sorted **before** their keys become texts,
  keys that do not compare raise, and an unknown value is written as its text.

`canonical_stored` says where the two agree: where no value is unknown, and the keys of each mapping compare
and are in the order of their texts (`faithful`).
-/

/-- A key of a mapping. A number comes with its value, by which it is sorted. -/
inductive YamlKey
  | null
  | bool (b : Bool)
  | num (rendering : Text) (value : WithBot (WithTop ℚ))
  | str (t : Text)
  | other (rendering : Text)

/-- A loaded document. A date, a set or a binary text is `other`, with its two renderings and its value in a
condition. -/
inductive Yaml
  | null
  | bool (b : Bool)
  | num (rendering : Text) (zero : Bool)
  | str (t : Text)
  | other (text repr : Text) (true_ : Bool)
  | seq (items : List Yaml)
  | map (fields : List (YamlKey × Yaml))

namespace YamlKey

/-- The key as an encoder writes it; of a type it does not know, it raises. -/
def text? : YamlKey → Option Text
  | null => some "null".toList
  | bool b => some (if b then "true".toList else "false".toList)
  | num rendering _ => some rendering
  | str t => some t
  | other _ => none

def str? : YamlKey → Option Text
  | str t => some t
  | _ => none

/-- The value of a number; the truth values are numbers. -/
def num? : YamlKey → Option (WithBot (WithTop ℚ))
  | num _ value => some value
  | bool b => some (if b then ((1 : ℚ) : WithTop ℚ) else ((0 : ℚ) : WithTop ℚ))
  | _ => none

end YamlKey

namespace Yaml

variable {α β : Type}

/-- A mapping with text keys. -/
def dict (fields : List (Text × Yaml)) : Yaml := .map (fields.map fun e ↦ (.str e.1, e.2))

/-! ### Reading -/

/-- The value in a condition. -/
def truthy : Yaml → Bool
  | null => false
  | bool b => b
  | num _ zero => !zero
  | str t => !t.isEmpty
  | other _ _ true_ => true_
  | seq items => !items.isEmpty
  | map fields => !fields.isEmpty

/-- A key as a value. -/
def ofKey : YamlKey → Yaml
  | .null => null
  | .bool b => bool b
  | .num rendering value => num rendering (value = ((0 : ℚ) : WithTop ℚ))
  | .str t => str t
  | .other rendering => other rendering rendering true

/-- `mapping.get(key, default)` -/
def get (fields : List (YamlKey × Yaml)) (key : String) (default : Yaml) : Yaml :=
  ((fields.find? fun e ↦ e.1.str? = some key.toList).map Prod.snd).getD default

section

variable [UnicodeTables]

/-- The quoted rendering of a key. -/
def keyRepr : YamlKey → Text
  | .null => "None".toList
  | .bool b => if b then "True".toList else "False".toList
  | .num rendering _ => rendering
  | .str t => (Text.repr t).toList
  | .other rendering => rendering

mutual

/-- The quoted rendering. -/
def repr : Yaml → Text
  | null => "None".toList
  | bool b => if b then "True".toList else "False".toList
  | num rendering _ => rendering
  | str t => (Text.repr t).toList
  | other _ repr _ => repr
  | seq items => '[' :: Json.joinWith ", ".toList (reprItems items) ++ [']']
  | map fields => '\x7b' :: Json.joinWith ", ".toList (reprFields fields) ++ ['\x7d']

def reprItems : List Yaml → List Text
  | [] => []
  | item :: rest => repr item :: reprItems rest

def reprFields : List (YamlKey × Yaml) → List Text
  | [] => []
  | (key, value) :: rest => (keyRepr key ++ ": ".toList ++ repr value) :: reprFields rest

end

/-- The rendering as text: a text is itself. -/
def toText : Yaml → Text
  | str t => t
  | other text _ _ => text
  | value => repr value

end

/-! ### Sorting the entries of a mapping -/

/-- The order of text keys. -/
def ByStr (a b : YamlKey × α) : Prop := a.1.str?.getD [] ≤ b.1.str?.getD []

/-- The order of numbers. -/
def ByNum (a b : YamlKey × α) : Prop := a.1.num?.getD ⊥ ≤ b.1.num?.getD ⊥

instance : DecidableRel (ByStr (α := α)) := fun _ _ ↦ inferInstanceAs (Decidable (_ ≤ _))

instance : DecidableRel (ByNum (α := α)) := fun _ _ ↦ inferInstanceAs (Decidable (_ ≤ _))

/-- Entries sorted by their keys: texts with texts, numbers with numbers; keys that do not compare raise. -/
def sortFields (fields : List (YamlKey × α)) : Option (List (YamlKey × α)) :=
  if fields.length ≤ 1 then some fields
  else if fields.all (·.1.str?.isSome) then some (fields.insertionSort ByStr)
  else if fields.all (·.1.num?.isSome) then some (fields.insertionSort ByNum)
  else none

/-- Entries under the texts of their keys. -/
def textFields : List (YamlKey × α) → Option (List (Text × α))
  | [] => some []
  | (key, a) :: rest => do
    let key ← key.text?
    let rest ← textFields rest
    return (key, a) :: rest

/-- The texts of the keys, in the order in which the entries are sorted. -/
def keyTexts (fields : List (YamlKey × α)) : Option (List Text) :=
  (sortFields fields).bind fun fields ↦ (textFields fields).map (·.map Prod.fst)

/-! ### The two encodings -/

mutual

/-- What comes back from a JSON column, or `none` where the encoder raises. -/
def stored : Yaml → Option Yaml
  | null => some null
  | bool b => some (bool b)
  | num rendering zero => some (num rendering zero)
  | str t => some (str t)
  | other .. => none
  | seq items => (storedItems items).map seq
  | map fields => do
    let fields ← storedFields fields
    let fields ← textFields fields
    return dict (Keyed.setAll Prod.fst [] fields)

def storedItems : List Yaml → Option (List Yaml)
  | [] => some []
  | item :: rest => do
    let item ← stored item
    let rest ← storedItems rest
    return item :: rest

def storedFields : List (YamlKey × Yaml) → Option (List (YamlKey × Yaml))
  | [] => some []
  | (key, value) :: rest => do
    let value ← stored value
    let rest ← storedFields rest
    return (key, value) :: rest

end

mutual

/-- The document whose text is hashed, or `none` where the encoder raises. -/
def canonical : Yaml → Option Json
  | null => some .null
  | bool b => some (.bool b)
  | num rendering zero => some (.num rendering zero)
  | str t => some (.str t)
  | other text _ _ => some (.str text)
  | seq items => (canonicalItems items).map .arr
  | map fields => do
    let fields ← canonicalFields fields
    let fields ← sortFields fields
    let fields ← textFields fields
    return .obj fields

def canonicalItems : List Yaml → Option (List Json)
  | [] => some []
  | item :: rest => do
    let item ← canonical item
    let rest ← canonicalItems rest
    return item :: rest

def canonicalFields : List (YamlKey × Yaml) → Option (List (YamlKey × Json))
  | [] => some []
  | (key, value) :: rest => do
    let value ← canonical value
    let rest ← canonicalFields rest
    return (key, value) :: rest

end

mutual

/-- No value is unknown, and the keys of each mapping compare and are in the order of their texts, none of
which is there twice. -/
def faithful : Yaml → Bool
  | null | bool _ | num .. | str _ => true
  | other .. => false
  | seq items => faithfulItems items
  | map fields => faithfulFields fields &&
    match keyTexts fields with
    | some texts => decide (texts.Pairwise (· < ·))
    | none => false

def faithfulItems : List Yaml → Bool
  | [] => true
  | item :: rest => faithful item && faithfulItems rest

def faithfulFields : List (YamlKey × Yaml) → Bool
  | [] => true
  | (_, value) :: rest => faithful value && faithfulFields rest

end

/-! ### Entries -/

theorem textFields_eq_some {l : List (YamlKey × α)} {r : List (Text × α)} :
    textFields l = some r ↔ List.Forall₂ (fun e x ↦ e.1.text? = some x.1 ∧ e.2 = x.2) l r := by
  induction l generalizing r with
  | nil =>
    rw [textFields, List.forall₂_nil_left_iff, Option.some.injEq]
    exact eq_comm
  | cons e rest ih =>
    obtain ⟨key, a⟩ := e
    rw [textFields, List.forall₂_cons_left_iff]
    constructor
    · intro h
      obtain ⟨t, ht, h⟩ := Option.bind_eq_some_iff.1 h
      obtain ⟨r', hr', h⟩ := Option.bind_eq_some_iff.1 h
      exact ⟨(t, a), r', ⟨ht, rfl⟩, ih.1 hr', (Option.some.inj h).symm⟩
    · rintro ⟨⟨t, a'⟩, r', ⟨ht, rfl⟩, hrest, rfl⟩
      have hr' := ih.2 hrest
      show (key.text?.bind fun key ↦ (textFields rest).bind fun rest ↦ some ((key, a) :: rest)) = _
      rw [ht, hr', Option.bind_some, Option.bind_some]

theorem textFields_map (f : α → β) (l : List (YamlKey × α)) :
    textFields (l.map (Prod.map id f)) = (textFields l).map (List.map (Prod.map id f)) := by
  induction l with
  | nil => rfl
  | cons e rest ih =>
    obtain ⟨key, a⟩ := e
    rw [List.map_cons, Prod.map_apply, id, textFields, ih, textFields]
    cases key.text? with
    | none => rfl
    | some t => cases textFields rest <;> rfl

theorem sortFields_map (f : α → β) (l : List (YamlKey × α)) :
    sortFields (l.map (Prod.map id f)) = (sortFields l).map (List.map (Prod.map id f)) := by
  have hstr : (l.map (Prod.map id f)).all (·.1.str?.isSome) = l.all (·.1.str?.isSome) := List.all_map
  have hnum : (l.map (Prod.map id f)).all (·.1.num?.isSome) = l.all (·.1.num?.isSome) := List.all_map
  rw [sortFields, sortFields, List.length_map, hstr, hnum]
  split
  · rfl
  split
  · rw [Option.map_some, List.map_insertionSort ByStr ByStr]
    exact fun _ _ _ _ ↦ Iff.rfl
  split
  · rw [Option.map_some, List.map_insertionSort ByNum ByNum]
    exact fun _ _ _ _ ↦ Iff.rfl
  · rfl

theorem sortFields_perm {l l' : List (YamlKey × α)} (h : sortFields l = some l') : l'.Perm l := by
  rw [sortFields] at h
  split at h
  · rw [Option.some.inj h]
  split at h
  · rw [← Option.some.inj h]
    exact List.perm_insertionSort _ l
  split at h
  · rw [← Option.some.inj h]
    exact List.perm_insertionSort _ l
  · cases h

theorem keyTexts_map (f : α → β) (l : List (YamlKey × α)) :
    keyTexts (l.map (Prod.map id f)) = keyTexts l := by
  rw [keyTexts, sortFields_map, keyTexts]
  cases sortFields l with
  | none => rfl
  | some l' =>
    rw [Option.map_some, Option.bind_some, textFields_map, Option.bind_some]
    cases textFields l' with
    | none => rfl
    | some r =>
      rw [Option.map_some, Option.map_some, Option.map_some, List.map_map]
      rfl

/-- The texts depend on the keys alone. -/
theorem keyTexts_congr {l : List (YamlKey × α)} {l' : List (YamlKey × β)}
    (h : l.map Prod.fst = l'.map Prod.fst) : keyTexts l = keyTexts l' := by
  have hunit : ∀ {γ : Type} (l : List (YamlKey × γ)),
      l.map (Prod.map id fun _ ↦ ()) = (l.map Prod.fst).map fun key ↦ (key, ()) := by
    intro γ l
    rw [List.map_map]
    rfl
  rw [← keyTexts_map (fun _ ↦ ()) l, ← keyTexts_map (fun _ ↦ ()) l', hunit, hunit, h]

/-! ### Mappings with text keys -/

/-- The order of the texts. -/
def ByText (a b : Text × α) : Prop := a.1 ≤ b.1

instance : DecidableRel (ByText (α := α)) := fun a b ↦ inferInstanceAs (Decidable (a.1 ≤ b.1))

instance : Std.Total (ByText (α := α)) := ⟨fun a b ↦ le_total a.1 b.1⟩

instance : IsTrans (Text × α) ByText := ⟨fun _ _ _ hab hbc ↦ le_trans hab hbc⟩

theorem sortFields_dict (l : List (Text × α)) :
    sortFields (l.map fun e ↦ (YamlKey.str e.1, e.2)) =
      some ((l.insertionSort ByText).map fun e ↦ (YamlKey.str e.1, e.2)) := by
  rw [sortFields, List.length_map]
  split
  next hlength =>
    match l with
    | [] | [_] => rfl
    | _ :: _ :: _ =>
      rw [List.length_cons, List.length_cons] at hlength
      omega
  next =>
    rw [if_pos (by simp [YamlKey.str?]), List.map_insertionSort ByText ByStr]
    exact fun _ _ _ _ ↦ Iff.rfl

theorem textFields_dict (l : List (Text × α)) :
    textFields (l.map fun e ↦ (YamlKey.str e.1, e.2)) = some l := by
  rw [textFields_eq_some, List.forall₂_map_left_iff]
  exact List.forall₂_same.2 fun e _ ↦ ⟨rfl, rfl⟩

theorem stored_map (fields : List (YamlKey × Yaml)) :
    (map fields).stored =
      (storedFields fields).bind fun fields ↦ (textFields fields).map (dict ∘ Keyed.setAll Prod.fst []) := by
  rw [stored]
  cases storedFields fields with
  | none => rfl
  | some sf =>
    show (do
      let fields ← textFields sf
      return dict (Keyed.setAll Prod.fst [] fields)) = (textFields sf).map (dict ∘ Keyed.setAll Prod.fst [])
    cases textFields sf <;> rfl

theorem canonical_map (fields : List (YamlKey × Yaml)) :
    (map fields).canonical =
      (canonicalFields fields).bind fun fields ↦ (sortFields fields).bind fun fields ↦
        (textFields fields).map .obj := by
  rw [canonical]
  cases canonicalFields fields with
  | none => rfl
  | some cf =>
    show (do
      let fields ← sortFields cf
      let fields ← textFields fields
      return Json.obj fields) = (sortFields cf).bind fun fields ↦ (textFields fields).map .obj
    cases sortFields cf with
    | none => rfl
    | some sorted =>
      show (do
        let fields ← textFields sorted
        return Json.obj fields) = (textFields sorted).map .obj
      cases textFields sorted <;> rfl

/-- An entry is hashed as this one. -/
def HashedAs {κ : Type} (e : κ × Yaml) (x : κ × Json) : Prop := e.1 = x.1 ∧ e.2.canonical = some x.2

/-- The canonical document of a mapping with text keys. -/
theorem canonical_dict {l : List (Text × Yaml)} {L : List (Text × Json)} (h : List.Forall₂ HashedAs l L) :
    (dict l).canonical = some (.obj (L.insertionSort ByText)) := by
  have hfields : canonicalFields (l.map fun e ↦ (YamlKey.str e.1, e.2)) =
      some (L.map fun x ↦ (YamlKey.str x.1, x.2)) := by
    induction h with
    | nil => rfl
    | cons hx _ ih =>
      obtain ⟨hkey, hvalue⟩ := hx
      rw [List.map_cons, canonicalFields, hvalue, ih, List.map_cons, hkey]
      rfl
  rw [dict, canonical_map, hfields, Option.bind_some, sortFields_dict, Option.bind_some, textFields_dict,
    Option.map_some]

/-- Entries with distinct texts have one sorted order. -/
theorem eq_insertionSort {L L' : List (Text × α)} (hperm : L'.Perm L)
    (hsorted : (L'.map Prod.fst).Pairwise (· < ·)) : L' = L.insertionSort ByText := by
  have hlt : L'.Pairwise fun a b ↦ a.1 < b.1 := List.pairwise_map.1 hsorted
  have hnodup : (L'.map Prod.fst).Nodup := hsorted.imp fun h ↦ h.ne
  have hperm' : L'.Perm (L.insertionSort ByText) := hperm.trans (List.perm_insertionSort _ L).symm
  have hantisymm : ∀ a b, a ∈ L' → b ∈ L.insertionSort ByText → ByText a b → ByText b a → a = b :=
    fun a b ha hb hab hba ↦
      List.inj_on_of_nodup_map hnodup ha (hperm'.mem_iff.2 hb) (le_antisymm hab hba)
  exact hperm'.eq_of_pairwise hantisymm (hlt.imp fun h ↦ h.le) (List.pairwise_insertionSort ByText L)

/-! ### Where the encodings agree -/

/-- Entries under the texts of their keys are hashed alike. -/
theorem textFields_hashedAs {sf : List (YamlKey × Yaml)} {cf : List (YamlKey × Json)}
    {L : List (Text × Json)} (hpairs : List.Forall₂ HashedAs sf cf) (hL : textFields cf = some L) :
    ∃ l, textFields sf = some l ∧ List.Forall₂ HashedAs l L := by
  induction hpairs generalizing L with
  | nil =>
    obtain rfl := Option.some.inj hL
    exact ⟨[], rfl, .nil⟩
  | @cons e x sf cf hx _ ih =>
    obtain ⟨hkey, hvalue⟩ := hx
    rw [textFields_eq_some, List.forall₂_cons_left_iff] at hL
    obtain ⟨y, L', ⟨htext, hy⟩, hrest, rfl⟩ := hL
    obtain ⟨l, hl, hpairs⟩ := ih (textFields_eq_some.2 hrest)
    refine ⟨(y.1, e.2) :: l, ?_, .cons ⟨rfl, hy ▸ hvalue⟩ hpairs⟩
    rw [textFields_eq_some] at hl ⊢
    exact .cons ⟨hkey ▸ htext, rfl⟩ hl

theorem map_fst_of_hashedAs {κ : Type} {l : List (κ × Yaml)} {L : List (κ × Json)}
    (h : List.Forall₂ HashedAs l L) : l.map Prod.fst = L.map Prod.fst := by
  induction h with
  | nil => rfl
  | cons hx _ ih => rw [List.map_cons, List.map_cons, hx.1, ih]

/-- A mapping whose keys are sorted in the order of their texts. -/
theorem canonical_stored_map {fields sf : List (YamlKey × Yaml)} {cf : List (YamlKey × Json)}
    (hstored : storedFields fields = some sf) (hcanon : canonicalFields fields = some cf)
    (hkeys : cf.map Prod.fst = fields.map Prod.fst) (hpairs : List.Forall₂ HashedAs sf cf)
    {texts : List Text} (htexts : keyTexts fields = some texts) (hsorted : texts.Pairwise (· < ·)) :
    ∃ y' c, (map fields).stored = some y' ∧ (map fields).canonical = some c ∧ y'.canonical = some c := by
  have htexts' : keyTexts cf = some texts := (keyTexts_congr hkeys).trans htexts
  obtain ⟨sorted, hsort, htextsof⟩ := Option.bind_eq_some_iff.1 htexts'
  obtain ⟨tf, htf, rfl⟩ := Option.map_eq_some_iff.1 htextsof
  -- the same entries in the order they were given in
  obtain ⟨L, hL, hperm⟩ := List.perm_comp_forall₂ (sortFields_perm hsort).symm (textFields_eq_some.1 htf)
  obtain ⟨l, hl, hhashed⟩ := textFields_hashedAs hpairs (textFields_eq_some.2 hL)
  have hnodup : (l.map Prod.fst).Nodup := by
    rw [map_fst_of_hashedAs hhashed, (hperm.map Prod.fst).nodup_iff]
    exact hsorted.imp fun h ↦ h.ne
  refine ⟨dict l, .obj tf, ?_, ?_, ?_⟩
  · rw [stored_map, hstored, Option.bind_some, hl, Option.map_some, Function.comp_apply,
      Keyed.setAll_of_nodup (by rwa [List.nil_append]), List.nil_append]
  · rw [canonical_map, hcanon, Option.bind_some, hsort, Option.bind_some, htf, Option.map_some]
  · rw [canonical_dict hhashed, eq_insertionSort hperm.symm hsorted]

mutual

/-- **What comes back from a column is hashed as the document that was stored.** -/
theorem canonical_stored {y : Yaml} (h : y.faithful = true) :
    ∃ y' c, y.stored = some y' ∧ y.canonical = some c ∧ y'.canonical = some c := by
  match y with
  | null => exact ⟨_, _, rfl, rfl, rfl⟩
  | bool _ => exact ⟨_, _, rfl, rfl, rfl⟩
  | num .. => exact ⟨_, _, rfl, rfl, rfl⟩
  | str _ => exact ⟨_, _, rfl, rfl, rfl⟩
  | other .. => exact absurd h Bool.false_ne_true
  | seq items =>
    have hitems : faithfulItems items = true := h
    obtain ⟨items', cs, hstored, hcanon, hcanon'⟩ := canonical_storedItems hitems
    exact ⟨seq items', .arr cs, by rw [stored, hstored, Option.map_some],
      by rw [canonical, hcanon, Option.map_some], by rw [canonical, hcanon', Option.map_some]⟩
  | map fields =>
    rw [faithful, Bool.and_eq_true] at h
    obtain ⟨hfields, htexts⟩ := h
    obtain ⟨sf, cf, hstored, hcanon, hkeys, hpairs⟩ := canonical_storedFields hfields
    cases hkt : keyTexts fields with
    | none =>
      rw [hkt] at htexts
      cases htexts
    | some texts =>
      rw [hkt] at htexts
      exact canonical_stored_map hstored hcanon hkeys hpairs hkt (of_decide_eq_true htexts)

theorem canonical_storedItems {items : List Yaml} (h : faithfulItems items = true) :
    ∃ items' cs, storedItems items = some items' ∧ canonicalItems items = some cs ∧
      canonicalItems items' = some cs := by
  match items with
  | [] => exact ⟨[], [], rfl, rfl, rfl⟩
  | item :: rest =>
    obtain ⟨hitem, hrest⟩ := Bool.and_eq_true_iff.1 h
    obtain ⟨y', c, hstored, hcanon, hcanon'⟩ := canonical_stored hitem
    obtain ⟨rest', cs, hstoreds, hcanons, hcanons'⟩ := canonical_storedItems hrest
    exact ⟨y' :: rest', c :: cs, by rw [storedItems, hstored, hstoreds]; rfl,
      by rw [canonicalItems, hcanon, hcanons]; rfl, by rw [canonicalItems, hcanon', hcanons']; rfl⟩

/-- Under the same keys, values that are hashed alike. -/
theorem canonical_storedFields {fields : List (YamlKey × Yaml)} (h : faithfulFields fields = true) :
    ∃ (sf : List (YamlKey × Yaml)) (cf : List (YamlKey × Json)),
      storedFields fields = some sf ∧ canonicalFields fields = some cf ∧
        cf.map Prod.fst = fields.map Prod.fst ∧ List.Forall₂ HashedAs sf cf := by
  match fields with
  | [] => exact ⟨[], [], rfl, rfl, rfl, .nil⟩
  | (key, value) :: rest =>
    obtain ⟨hvalue, hrest⟩ := Bool.and_eq_true_iff.1 h
    obtain ⟨y', c, hstored, hcanon, hcanon'⟩ := canonical_stored hvalue
    obtain ⟨sf, cf, hstoreds, hcanons, hkeys, hpairs⟩ := canonical_storedFields hrest
    exact ⟨(key, y') :: sf, (key, c) :: cf, by rw [storedFields, hstored, hstoreds]; rfl,
      by rw [canonicalFields, hcanon, hcanons]; rfl, by rw [List.map_cons, List.map_cons, hkeys],
      .cons ⟨rfl, hcanon'⟩ hpairs⟩

end

/-! ### Looking a key up -/

/-- Under distinct keys a lookup finds the entry. -/
theorem lookup_eq_some_iff_mem {l : List (Text × α)} (hnodup : (l.map Prod.fst).Nodup) {key : Text} {a : α} :
    l.lookup key = some a ↔ (key, a) ∈ l := by
  induction l with
  | nil => simp
  | cons e rest ih =>
    obtain ⟨k, b⟩ := e
    obtain ⟨hk, hrest⟩ := List.nodup_cons.1 hnodup
    rw [List.lookup_cons, List.mem_cons]
    by_cases hkey : key = k
    · subst hkey
      rw [beq_self_eq_true]
      constructor
      · intro h
        exact Or.inl (by rw [Option.some.inj h])
      · rintro (h | h)
        · rw [(Prod.mk.inj h).2]
        · exact absurd (List.mem_map_of_mem (f := Prod.fst) h) hk
    · rw [beq_false_of_ne hkey]
      show rest.lookup key = some a ↔ _
      rw [ih hrest]
      exact ⟨Or.inr, fun h ↦ h.resolve_left fun heq ↦ hkey (Prod.mk.inj heq).1⟩

theorem lookup_perm {l l' : List (Text × α)} (hperm : l.Perm l') (hnodup : (l.map Prod.fst).Nodup)
    (key : Text) : l.lookup key = l'.lookup key := by
  have hnodup' : (l'.map Prod.fst).Nodup := (hperm.map Prod.fst).nodup_iff.1 hnodup
  refine Option.ext fun a ↦ ?_
  rw [lookup_eq_some_iff_mem hnodup, lookup_eq_some_iff_mem hnodup', hperm.mem_iff]

theorem lookup_of_hashedAs {l : List (Text × Yaml)} {L : List (Text × Json)}
    (h : List.Forall₂ HashedAs l L) (key : Text) : (l.lookup key).map canonical = (L.lookup key).map some := by
  induction h with
  | nil => rfl
  | @cons e x l L hx _ ih =>
    obtain ⟨k, y⟩ := e
    obtain ⟨k', c⟩ := x
    obtain ⟨rfl, hvalue⟩ := hx
    rw [List.lookup_cons, List.lookup_cons]
    cases key == k with
    | true => exact congrArg some hvalue
    | false => exact ih

/-- What a canonical document of a mapping with text keys comes from. -/
theorem hashedAs_of_canonical {l : List (Text × Yaml)} {c : Json} (h : (dict l).canonical = some c) :
    ∃ L, List.Forall₂ HashedAs l L ∧ c = .obj (L.insertionSort ByText) := by
  have hfields : ∀ {l : List (Text × Yaml)} {cf : List (YamlKey × Json)},
      canonicalFields (l.map fun e ↦ (YamlKey.str e.1, e.2)) = some cf →
        ∃ L, List.Forall₂ HashedAs l L := by
    intro l
    induction l with
    | nil => exact fun _ ↦ ⟨[], .nil⟩
    | cons e rest ih =>
      intro cf hcf
      rw [List.map_cons, canonicalFields] at hcf
      obtain ⟨c, hc, hcf⟩ := Option.bind_eq_some_iff.1 hcf
      obtain ⟨cs, hcs, -⟩ := Option.bind_eq_some_iff.1 hcf
      obtain ⟨L, hL⟩ := ih hcs
      exact ⟨(e.1, c) :: L, .cons ⟨rfl, hc⟩ hL⟩
  have hmap := h
  rw [dict, canonical_map] at hmap
  obtain ⟨cf, hcf, -⟩ := Option.bind_eq_some_iff.1 hmap
  obtain ⟨L, hL⟩ := hfields hcf
  exact ⟨L, hL, Option.some.inj (h.symm.trans (canonical_dict hL))⟩

/-- Two values are hashed as one document. -/
def SameValue (v w : Yaml) : Prop := ∃ c, v.canonical = some c ∧ w.canonical = some c

/-- Two mappings with text keys are. -/
def Same (l l' : List (Text × Yaml)) : Prop := SameValue (dict l) (dict l')

/-- Mappings are hashed alike whose entries are. -/
theorem same_of_forall₂ {l l' : List (Text × Yaml)}
    (h : List.Forall₂ (fun e e' ↦ e.1 = e'.1 ∧ SameValue e.2 e'.2) l l') : Same l l' := by
  have hL : ∃ L, List.Forall₂ HashedAs l L ∧ List.Forall₂ HashedAs l' L := by
    induction h with
    | nil => exact ⟨[], .nil, .nil⟩
    | @cons e e' _ _ hx _ ih =>
      obtain ⟨hkey, c, hc, hc'⟩ := hx
      obtain ⟨L, hl, hl'⟩ := ih
      exact ⟨(e.1, c) :: L, .cons ⟨rfl, hc⟩ hl, .cons ⟨hkey.symm, hc'⟩ hl'⟩
  obtain ⟨L, hl, hl'⟩ := hL
  exact ⟨_, canonical_dict hl, canonical_dict hl'⟩

/-- **And at each key the values of mappings that are hashed alike are.** -/
theorem Same.lookup {l l' : List (Text × Yaml)} (hnodup : (l.map Prod.fst).Nodup) (h : Same l l')
    (key : Text) : (l.lookup key = none ∧ l'.lookup key = none) ∨
      ∃ v v', l.lookup key = some v ∧ l'.lookup key = some v' ∧ SameValue v v' := by
  obtain ⟨c, hc, hc'⟩ := h
  obtain ⟨L, hL, rfl⟩ := hashedAs_of_canonical hc
  obtain ⟨L', hL', hsorted⟩ := hashedAs_of_canonical hc'
  have hperm : L.Perm L' := by
    have hleft := (List.perm_insertionSort ByText L).symm
    rw [Json.obj.inj hsorted] at hleft
    exact hleft.trans (List.perm_insertionSort ByText L')
  have hnodupL : (L.map Prod.fst).Nodup := map_fst_of_hashedAs hL ▸ hnodup
  have hl := lookup_of_hashedAs hL key
  have hl' := lookup_of_hashedAs hL' key
  rw [← lookup_perm hperm hnodupL] at hl'
  cases hfound : L.lookup key with
  | none =>
    rw [hfound] at hl hl'
    exact Or.inl ⟨Option.map_eq_none_iff.1 hl, Option.map_eq_none_iff.1 hl'⟩
  | some c =>
    rw [hfound] at hl hl'
    obtain ⟨v, hv, hvc⟩ := Option.map_eq_some_iff.1 hl
    obtain ⟨v', hv', hvc'⟩ := Option.map_eq_some_iff.1 hl'
    exact Or.inr ⟨v, v', hv, hv', c, hvc, hvc'⟩

/-- So they are under a default. -/
theorem Same.getD {l l' : List (Text × Yaml)} (hnodup : (l.map Prod.fst).Nodup) (h : Same l l')
    (key : Text) {default : Yaml} (hdefault : SameValue default default) :
    SameValue ((l.lookup key).getD default) ((l'.lookup key).getD default) := by
  rcases h.lookup hnodup key with ⟨hl, hl'⟩ | ⟨v, v', hl, hl', hsame⟩
  · rw [hl, hl']
    exact hdefault
  · rw [hl, hl']
    exact hsame

theorem get_dict (l : List (Text × Yaml)) (key : String) (default : Yaml) :
    get (l.map fun e ↦ (YamlKey.str e.1, e.2)) key default = (l.lookup key.toList).getD default := by
  rw [get]
  induction l with
  | nil => rfl
  | cons e rest ih =>
    obtain ⟨k, v⟩ := e
    rw [List.map_cons, List.find?_cons, List.lookup_cons]
    by_cases hk : key.toList = k
    · rw [decide_eq_true (show (YamlKey.str k).str? = some key.toList by rw [YamlKey.str?, hk]),
        beq_iff_eq.2 hk]
      rfl
    · rw [decide_eq_false (show ¬(YamlKey.str k).str? = some key.toList from
        fun h ↦ hk (Option.some.inj h).symm), beq_false_of_ne hk]
      exact ih

/-- A mapping that comes back from a column has text keys, each once. -/
theorem dict_of_stored {fields : List (YamlKey × Yaml)} {y : Yaml} (h : (map fields).stored = some y) :
    ∃ l, y = dict l ∧ (l.map Prod.fst).Nodup := by
  rw [stored_map] at h
  obtain ⟨sf, -, h⟩ := Option.bind_eq_some_iff.1 h
  obtain ⟨l, -, rfl⟩ := Option.map_eq_some_iff.1 h
  have hempty : (([] : List (Text × Yaml)).map Prod.fst).Nodup := List.nodup_nil
  exact ⟨_, rfl, Keyed.nodup_setAll hempty l⟩

end Yaml
