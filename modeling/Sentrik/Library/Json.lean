import Sentrik.Library.Text

/-!
# Decoded documents

The value of a decoded JSON document, with the reading a scripting language gives it: every value is
true or false in a condition, every value has a rendering as text, and an object is a dictionary.

A number is kept as it is rendered, together with whether it is zero.

**Dictionaries are association lists** read at the first entry of a key; writing a key replaces that
entry or adds one at the end, so a dictionary written only by `setItem` has each key once.
-/

/-- A decoded document. -/
inductive Json
  | null
  | bool (b : Bool)
  | num (rendering : Text) (zero : Bool)
  | str (t : Text)
  | arr (items : List Json)
  | obj (fields : List (Text × Json))

/-- A dictionary with text keys. -/
abbrev Dict := List (Text × Json)

namespace Dict

def get? (d : Dict) (key : Text) : Option Json := d.lookup key

/-- Write a key. -/
def setItem : Dict → Text → Json → Dict
  | [], key, value => [(key, value)]
  | (k, v) :: rest, key, value =>
    if k = key then (k, value) :: rest else (k, v) :: setItem rest key value

theorem get?_setItem (d : Dict) (key key' : Text) (value : Json) :
    (d.setItem key value).get? key' = if key' = key then some value else d.get? key' := by
  induction d with
  | nil =>
    rw [setItem, get?, List.lookup_cons, get?, List.lookup_nil]
    by_cases h : key' = key
    · rw [if_pos h, h, beq_self_eq_true]
    · rw [if_neg h, beq_false_of_ne h]
  | cons e rest ih =>
    obtain ⟨k, v⟩ := e
    rw [setItem]
    split
    next hk =>
      rw [get?, get?, List.lookup_cons, List.lookup_cons, hk]
      by_cases h : key' = key
      · rw [if_pos h, h, beq_self_eq_true]
      · rw [if_neg h, beq_false_of_ne h]
    next hk =>
      rw [get?] at ih ⊢
      rw [get?, List.lookup_cons, List.lookup_cons]
      by_cases h : key' = k
      · rw [h, beq_self_eq_true, if_neg hk]
      · rw [beq_false_of_ne h]
        exact ih

theorem isEmpty_setItem (d : Dict) (key : Text) (value : Json) :
    (d.setItem key value).isEmpty = false := by
  cases d with
  | nil => rfl
  | cons e rest =>
    rw [setItem]
    split
    · rfl
    · rfl

/-- Write all entries of another dictionary. -/
def update (d other : Dict) : Dict := other.foldl (fun d e ↦ setItem d e.1 e.2) d

/-- Write a key unless it is there. -/
def setdefault (d : Dict) (key : Text) (value : Json) : Dict :=
  if (d.get? key).isSome then d else setItem d key value

end Dict

namespace Json

/-- The value in a condition. -/
def truthy : Json → Bool
  | null => false
  | bool b => b
  | num _ zero => !zero
  | str t => !t.isEmpty
  | arr items => !items.isEmpty
  | obj fields => !fields.isEmpty

/-- `value or None`: the value, if it is true in a condition. -/
def orNone (value : Option Json) : Option Json := value.filter truthy

/-- The entries, if the value is a dictionary. -/
def dict? : Json → Option Dict
  | obj fields => some fields
  | _ => none

/-- The items, if the value is a list. -/
def list? : Json → Option (List Json)
  | arr items => some items
  | _ => none

section

variable [UnicodeTables]

/-- Put a separator between texts. -/
def joinWith (sep : Text) (parts : List Text) : Text := List.intercalate sep parts

mutual

/-- The quoted rendering. -/
def repr : Json → Text
  | null => "None".toList
  | bool b => if b then "True".toList else "False".toList
  | num rendering _ => rendering
  | str t => (Text.repr t).toList
  | arr items => '[' :: joinWith ", ".toList (reprItems items) ++ [']']
  | obj fields => '\x7b' :: joinWith ", ".toList (reprFields fields) ++ ['\x7d']

def reprItems : List Json → List Text
  | [] => []
  | item :: rest => repr item :: reprItems rest

def reprFields : List (Text × Json) → List Text
  | [] => []
  | (key, value) :: rest => ((Text.repr key).toList ++ ": ".toList ++ repr value) :: reprFields rest

end

/-- The rendering as text: a text is itself. -/
def toText : Json → Text
  | str t => t
  | value => repr value

end

end Json
