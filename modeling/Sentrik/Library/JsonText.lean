import Sentrik.Library.Json
import Sentrik.Library.SelfDelimiting

/-!
# Printing documents

The compact printing of a document, in ASCII: separators without blanks, and every character that is
not printable ASCII as an escape, outside the first plane as a pair of them.

What is printed can be read back: the printing of texts, of truth values and of lists of texts is
self-delimiting (`dumpsText_selfDelimiting`, `dumpsBool_selfDelimiting`, `dumpsTexts_selfDelimiting`).
-/

open Text (hexDigit)

namespace JsonText

/-! ### Characters -/

def hexValue (c : Char) : ℕ := if c.toNat < 58 then c.toNat - 48 else c.toNat - 87

theorem hexValue_hexDigit {n : ℕ} (h : n < 16) : hexValue (hexDigit n) = n := by
  have hall : ∀ m : Fin 16, hexValue (hexDigit m) = m := by decide
  exact hall ⟨n, h⟩

/-- The escape of a code unit. -/
def escapeUnit (n : ℕ) : Text :=
  ['\\', 'u', hexDigit (n / 4096 % 16), hexDigit (n / 256 % 16), hexDigit (n / 16 % 16),
    hexDigit (n % 16)]

/-- The character as it stands in a printed text. -/
def escape (c : Char) : Text :=
  if c = '"' then ['\\', '"']
  else if c = '\\' then ['\\', '\\']
  else if c = '\n' then ['\\', 'n']
  else if c = '\r' then ['\\', 'r']
  else if c = '\t' then ['\\', 't']
  else if c.toNat = 12 then ['\\', 'f']
  else if c.toNat = 8 then ['\\', 'b']
  else if 32 ≤ c.toNat ∧ c.toNat ≤ 126 then [c]
  else if c.toNat < 0x10000 then escapeUnit c.toNat
  else
    escapeUnit (0xD800 + (c.toNat - 0x10000) / 0x400) ++
      escapeUnit (0xDC00 + (c.toNat - 0x10000) % 0x400)

/-- The code unit four digits denote. -/
def unit (a b c d : Char) : ℕ :=
  4096 * hexValue a + 256 * hexValue b + 16 * hexValue c + hexValue d

/-- Read the second unit of a pair back. -/
def readLow (high : ℕ) : Text → Option (Char × Text)
  | '\\' :: 'u' :: a :: b :: c :: d :: x =>
    some (Char.ofNat (0x10000 + 0x400 * (high - 0xD800) + (unit a b c d - 0xDC00)), x)
  | _ => none

/-- Read back what follows a backslash. -/
def readEscape : Text → Option (Char × Text)
  | '"' :: x => some ('"', x)
  | '\\' :: x => some ('\\', x)
  | 'n' :: x => some ('\n', x)
  | 'r' :: x => some ('\r', x)
  | 't' :: x => some ('\t', x)
  | 'f' :: x => some (Char.ofNat 12, x)
  | 'b' :: x => some (Char.ofNat 8, x)
  | 'u' :: a :: b :: c :: d :: x =>
    if 0xD800 ≤ unit a b c d ∧ unit a b c d < 0xDC00 then readLow (unit a b c d) x
    else some (Char.ofNat (unit a b c d), x)
  | _ => none

/-- Read a character back. -/
def read : Text → Option (Char × Text)
  | [] => none
  | c :: x => if c = '\\' then readEscape x else some (c, x)

theorem unit_escapeUnit {n : ℕ} (h : n < 0x10000) :
    unit (hexDigit (n / 4096 % 16)) (hexDigit (n / 256 % 16)) (hexDigit (n / 16 % 16))
      (hexDigit (n % 16)) = n := by
  have hlt : ∀ m, m % 16 < 16 := fun m ↦ Nat.mod_lt m (by omega)
  rw [unit, hexValue_hexDigit (hlt _), hexValue_hexDigit (hlt _), hexValue_hexDigit (hlt _),
    hexValue_hexDigit (hlt _)]
  omega

theorem read_escapeUnit {n : ℕ} (h : n < 0x10000) (hlow : ¬(0xD800 ≤ n ∧ n < 0xDC00)) (x : Text) :
    read (escapeUnit n ++ x) = some (Char.ofNat n, x) := by
  show readEscape ('u' :: _ :: _ :: _ :: _ :: x) = _
  rw [readEscape, unit_escapeUnit h, if_neg hlow]

theorem read_escapeUnit_pair {m : ℕ} (h : m < 0x100000) (x : Text) :
    read (escapeUnit (0xD800 + m / 0x400) ++ escapeUnit (0xDC00 + m % 0x400) ++ x) =
      some (Char.ofNat (0x10000 + m), x) := by
  have hhigh : 0xD800 + m / 0x400 < 0x10000 := by omega
  have hlow : 0xDC00 + m % 0x400 < 0x10000 := by omega
  have hpair : 0xD800 ≤ 0xD800 + m / 0x400 ∧ 0xD800 + m / 0x400 < 0xDC00 := by omega
  show readEscape ('u' :: _ :: _ :: _ :: _ :: '\\' :: 'u' :: _ :: _ :: _ :: _ :: x) = _
  rw [readEscape, unit_escapeUnit hhigh, if_pos hpair, readLow, unit_escapeUnit hlow]
  have hm : 0x10000 + 0x400 * (0xD800 + m / 0x400 - 0xD800) + (0xDC00 + m % 0x400 - 0xDC00) =
      0x10000 + m := by omega
  rw [hm]

/-- **A printed character is read back**, whatever follows it. -/
theorem read_escape (c : Char) (x : Text) : read (escape c ++ x) = some (c, x) := by
  have hvalid : c.toNat < 0xD800 ∨ 0xDFFF < c.toNat ∧ c.toNat < 0x110000 := c.valid
  rw [escape]
  split
  next h => rw [h]; rfl
  next hquote =>
  split
  next h => rw [h]; rfl
  next hslash =>
  split
  next h => rw [h]; rfl
  split
  next h => rw [h]; rfl
  split
  next h => rw [h]; rfl
  split
  next h => rw [← Char.ofNat_toNat c, h]; rfl
  split
  next h => rw [← Char.ofNat_toNat c, h]; rfl
  split
  next hprint =>
    show read (c :: x) = some (c, x)
    rw [read, if_neg hslash]
  next hprint =>
  split
  next hplane =>
    rw [read_escapeUnit hplane (by omega), Char.ofNat_toNat]
  next hplane =>
    have hpair := read_escapeUnit_pair (m := c.toNat - 0x10000) (by omega) x
    rw [hpair, Nat.add_sub_cancel' (by omega), Char.ofNat_toNat]

theorem escape_ne_nil (c : Char) : escape c ≠ [] := by
  intro h
  have hread := read_escape c []
  rw [h] at hread
  cases hread

/-- No printed character starts with a quotation mark. -/
theorem escape_ne_quote (c : Char) (x : Text) : escape c ≠ '"' :: x := by
  intro h
  have hread := read_escape c []
  rw [h] at hread
  obtain ⟨hc, hx⟩ := Prod.mk.inj (Option.some.inj hread)
  rw [← hc] at h
  rw [show escape '"' = ['\\', '"'] from rfl] at h
  exact absurd (List.cons.inj h).1 (by decide)

theorem escape_selfDelimiting : SelfDelimiting escape := .of_read read read_escape

/-! ### Documents up to the order of keys -/

mutual

/-- The document with the entries of every dictionary sorted by key. -/
def sortKeys : Json → Json
  | .null => .null
  | .bool b => .bool b
  | .num rendering zero => .num rendering zero
  | .str t => .str t
  | .arr items => .arr (sortKeysItems items)
  | .obj fields => .obj ((sortKeysFields fields).insertionSort fun a b ↦ a.1 ≤ b.1)

def sortKeysItems : List Json → List Json
  | [] => []
  | item :: rest => sortKeys item :: sortKeysItems rest

def sortKeysFields : List (Text × Json) → List (Text × Json)
  | [] => []
  | (key, value) :: rest => (key, sortKeys value) :: sortKeysFields rest

end

theorem map_fst_sortKeysFields (fields : Dict) :
    (sortKeysFields fields).map Prod.fst = fields.map Prod.fst := by
  induction fields with
  | nil => rw [sortKeysFields]
  | cons e rest ih =>
    obtain ⟨key, value⟩ := e
    rw [sortKeysFields, List.map_cons, List.map_cons, ih]

/-- Dictionaries that are equal up to order have the same keys. -/
theorem keys_perm_of_sortKeys_eq {fields fields' : Dict}
    (h : sortKeys (.obj fields) = sortKeys (.obj fields')) :
    (fields.map Prod.fst).Perm (fields'.map Prod.fst) := by
  rw [sortKeys, sortKeys] at h
  have hkeys := congrArg (List.map Prod.fst) (Json.obj.inj h)
  have hperm : ∀ l : Dict,
      ((l.insertionSort fun a b ↦ a.1 ≤ b.1).map Prod.fst).Perm (l.map Prod.fst) :=
    fun l ↦ (List.perm_insertionSort _ l).map Prod.fst
  have hleft := (hperm (sortKeysFields fields)).symm.trans (hkeys ▸ hperm (sortKeysFields fields'))
  rwa [map_fst_sortKeysFields, map_fst_sortKeysFields] at hleft

/-! ### Documents -/

/-- A text, in quotation marks. -/
def dumpsText (t : Text) : Text := '"' :: (t.flatMap escape ++ ['"'])

def dumpsBool (b : Bool) : Text := if b then "true".toList else "false".toList

mutual

/-- `json.dumps(value, separators=(",", ":"))` -/
def dumps : Json → Text
  | .null => "null".toList
  | .bool b => dumpsBool b
  | .num rendering _ => rendering
  | .str t => dumpsText t
  | .arr items => '[' :: SelfDelimiting.joined ',' ']' (dumpsItems items)
  | .obj fields => '\x7b' :: SelfDelimiting.joined ',' '\x7d' (dumpsFields fields)

def dumpsItems : List Json → List Text
  | [] => []
  | item :: rest => dumps item :: dumpsItems rest

def dumpsFields : List (Text × Json) → List Text
  | [] => []
  | (key, value) :: rest => (dumpsText key ++ ':' :: dumps value) :: dumpsFields rest

end

/-- A list of texts. -/
def dumpsTexts (l : List Text) : Text := '[' :: SelfDelimiting.joined ',' ']' (l.map dumpsText)

theorem dumps_arr_texts (l : List Text) : dumps (.arr (l.map .str)) = dumpsTexts l := by
  have hitems : dumpsItems (l.map .str) = l.map dumpsText := by
    induction l with
    | nil => rw [List.map_nil, List.map_nil, dumpsItems]
    | cons t l ih => rw [List.map_cons, List.map_cons, dumpsItems, dumps, ih]
  rw [dumps, hitems, dumpsTexts]

theorem dumpsText_selfDelimiting : SelfDelimiting dumpsText :=
  (escape_selfDelimiting.terminated '"' escape_ne_quote escape_ne_nil).prepend ['"']

theorem dumpsBool_selfDelimiting : SelfDelimiting dumpsBool := by
  intro a b x y h
  cases a with
  | true =>
    cases b with
    | true => exact ⟨rfl, List.append_cancel_left h⟩
    | false => exact absurd (List.cons.inj h).1 (by decide)
  | false =>
    cases b with
    | true => exact absurd (List.cons.inj h).1 (by decide)
    | false => exact ⟨rfl, List.append_cancel_left h⟩

theorem dumpsTexts_selfDelimiting : SelfDelimiting dumpsTexts := by
  refine SelfDelimiting.prepend (SelfDelimiting.separated dumpsText_selfDelimiting ?_ ?_ ?_) ['[']
  · decide
  · intro t x h
    exact absurd (List.cons.inj h).1 (by decide)
  · exact fun t ↦ List.cons_ne_nil _ _

example : dumps (.obj [("a".toList, .str "é\n".toList), ("b".toList, .arr [.bool true, .null])]) =
    "\x7b\"a\":\"\\u00e9\\n\",\"b\":[true,null]\x7d".toList := by
  decide +kernel

end JsonText
