import Mathlib.Data.Char
import Mathlib.Data.List.Lex
import Mathlib.Data.List.Sort
import Mathlib.Data.List.Dedup

/-!
# Text

Text is a list of code points. The operations are those of a scripting language's string type:
cutting at the first or last occurrence of a character, splitting, substring tests, decimal digits,
a quoted rendering, and a sorted set of texts.

**The Unicode tables are a parameter.** Case mapping, normalization, and the space and printable
classes are supplied by an instance of `UnicodeTables`, without laws; the few results that need laws of
them assume `LawfulUnicodeTables`. `asciiTables` is the restriction of the real tables to ASCII, for
evaluating closed examples.
-/

/-- Text: a list of code points. -/
abbrev Text := List Char

instance : LawfulBEq Text := inferInstance

/-- What text processing reads of the Unicode tables. Supplied data with no laws. -/
class UnicodeTables where
  /-- Lower-case mapping of a whole text. -/
  lower : Text → Text
  /-- Upper-case mapping of a whole text. -/
  upper : Text → Text
  /-- Normalization form KC. -/
  nfkc : Text → Text
  /-- White space, as stripping sees it. -/
  isSpace : Char → Bool
  /-- Printable characters, as a quoted rendering sees them. -/
  isPrintable : Char → Bool

/-- The tables restricted to ASCII: exact on ASCII text. -/
@[reducible] def asciiTables : UnicodeTables where
  lower := List.map Char.toLower
  upper := List.map Char.toUpper
  nfkc := id
  isSpace c := c.isWhitespace || (28 ≤ c.toNat && c.toNat ≤ 31) || c.toNat == 11 || c.toNat == 12
  isPrintable c := 32 ≤ c.toNat && c.toNat < 127

/-! ### Laws of the tables -/

/-- What a few results need of the tables: a part of a lower-case text is lower-case, and lowering a text
neither makes it empty nor takes away its white space. -/
class LawfulUnicodeTables [u : UnicodeTables] : Prop where
  lower_of_infix : ∀ {s t : Text}, s <:+: u.lower t → u.lower s = s
  lower_eq_nil : ∀ {t : Text}, u.lower t = [] → t = []
  isSpace_lower : ∀ {t : Text}, (∀ c ∈ t, u.isSpace c = true) → ∀ c ∈ u.lower t, u.isSpace c = true

/-- The white space among the ASCII characters. -/
class LawfulAsciiSpaces [u : UnicodeTables] : Prop where
  isSpace_ascii : ∀ {c : Char}, c.toNat < 128 → u.isSpace c = asciiTables.isSpace c

/-- The lower case of the ASCII characters. -/
class LawfulAsciiLower [u : UnicodeTables] : Prop where
  lower_ascii : ∀ {t : Text}, (∀ c ∈ t, c.toNat < 128) → u.lower t = t.map Char.toLower

theorem Char.toLower_of_not_upper {c : Char} (h : ¬(c.val ≥ 'A'.val ∧ c.val ≤ 'Z'.val)) :
    c.toLower = c := dif_neg h

/-- Lowering a character twice is lowering it once. -/
theorem Char.toLower_idem (c : Char) : c.toLower.toLower = c.toLower := by
  refine Char.toLower_of_not_upper ?_
  by_cases h : c.val ≥ 'A'.val ∧ c.val ≤ 'Z'.val
  · have hval : c.toLower.val = c.val + ('a'.val - 'A'.val) := congrArg Char.val (dif_pos h)
    have hlo := UInt32.le_iff_toNat_le.1 h.1
    have hhi := UInt32.le_iff_toNat_le.1 h.2
    rw [hval]
    -- the letter is moved past the upper-case ones
    simp only [ge_iff_le, UInt32.le_iff_toNat_le, UInt32.toNat_add] at hlo hhi ⊢
    simp at hlo hhi ⊢
    omega
  · rw [Char.toLower_of_not_upper h]
    exact h

section

attribute [local instance] asciiTables

instance lawfulSpaces_asciiTables : LawfulAsciiSpaces where
  isSpace_ascii _ := rfl

instance lawfulLower_asciiTables : LawfulAsciiLower where
  lower_ascii _ := rfl

instance lawful_asciiTables : LawfulUnicodeTables where
  lower_of_infix {s t} h := by
    refine (List.map_congr_left fun c hc ↦ ?_).trans (List.map_id s)
    obtain ⟨d, -, rfl⟩ := List.mem_map.1 (h.subset hc)
    exact Char.toLower_idem d
  lower_eq_nil h := List.map_eq_nil_iff.1 h
  isSpace_lower {t} h c hc := by
    obtain ⟨d, hd, rfl⟩ := List.mem_map.1 hc
    have hspace : (d.isWhitespace || (28 ≤ d.toNat && d.toNat ≤ 31) || d.toNat == 11 || d.toNat == 12) =
        true := h d hd
    have hnot : ¬(d.val ≥ 'A'.val ∧ d.val ≤ 'Z'.val) := by
      intro hupper
      have hlo := UInt32.le_iff_toNat_le.1 hupper.1
      have hhi := UInt32.le_iff_toNat_le.1 hupper.2
      -- no white space is an upper-case letter
      simp [Char.isWhitespace, Char.ext_iff, ← UInt32.toNat_inj] at hspace hlo hhi
      omega
    rw [Char.toLower_of_not_upper hnot]
    exact h d hd

end

namespace Text

/-! ### Cutting -/

/-- Cut at the first `c`: what precedes it, and what follows it when it occurs. -/
def partition (c : Char) (t : Text) : Text × Option Text :=
  (t.takeWhile (· != c), (t.dropWhile (· != c)).tail?)

/-- Cut at the last `c`: what precedes it when it occurs, and what follows it. -/
def rpartition (c : Char) (t : Text) : Option Text × Text :=
  ((partition c t.reverse).2.map List.reverse, (partition c t.reverse).1.reverse)

/-- Split at every `c`. -/
def split (c : Char) : Text → List Text
  | [] => [[]]
  | x :: xs =>
    if x = c then [] :: split c xs
    else
      match split c xs with
      | [] => [[x]]
      | part :: rest => (x :: part) :: rest

/-- `p` occurs somewhere in `t`. -/
def hasInfix (p t : Text) : Bool := t.tails.any p.isPrefixOf

/-- `t` starts with `p`. -/
def startswith (t p : Text) : Bool := p.isPrefixOf t

theorem startswith_iff {t p : Text} : startswith t p = true ↔ p <+: t :=
  List.isPrefixOf_iff_prefix

@[simp] theorem startswith_self (t : Text) : startswith t t = true :=
  startswith_iff.2 (List.prefix_refl t)

/-- Remove white space at both ends. -/
def strip [u : UnicodeTables] (t : Text) : Text :=
  ((t.dropWhile u.isSpace).reverse.dropWhile u.isSpace).reverse

/-! ### Digits -/

/-- An ASCII decimal digit. -/
def isDigit (c : Char) : Bool := '0' ≤ c && c ≤ '9'

/-- The hexadecimal digit of a value below sixteen, in lower case. -/
def hexDigit (n : ℕ) : Char := if n < 10 then Char.ofNat (48 + n) else Char.ofNat (87 + n)

/-- The value of a text of ASCII decimal digits. -/
def toNat (t : Text) : ℕ := t.foldl (fun n c ↦ 10 * n + (c.toNat - '0'.toNat)) 0

/-! ### Rendering -/

/-- One character of a quoted rendering, inside the quote `q`. -/
def reprChar [u : UnicodeTables] (q c : Char) : Text :=
  if c = q ∨ c = '\\' then ['\\', c]
  else if c = '\n' then ['\\', 'n']
  else if c = '\r' then ['\\', 'r']
  else if c = '\t' then ['\\', 't']
  else if u.isPrintable c then [c]
  else
    let hex := Nat.toDigits 16 c.toNat
    if c.toNat < 256 then '\\' :: 'x' :: List.replicate (2 - hex.length) '0' ++ hex
    else if c.toNat < 65536 then '\\' :: 'u' :: List.replicate (4 - hex.length) '0' ++ hex
    else '\\' :: 'U' :: List.replicate (8 - hex.length) '0' ++ hex

/-- The quoted rendering of a text: single quotes, unless it holds one and no double quote. -/
def repr [UnicodeTables] (t : Text) : String :=
  let q := if t.contains '\'' && !t.contains '"' then '"' else '\''
  String.ofList (q :: t.flatMap (reprChar q) ++ [q])

/-- The rendering of a list whose entries are already rendered. -/
def renderList (l : List String) : String := "[" ++ String.intercalate ", " l ++ "]"

/-! ### Sorted sets -/

/-- The distinct texts of a list, in increasing order. -/
def sortedSet (l : List Text) : List Text := l.dedup.insertionSort (· ≤ ·)

@[simp] theorem mem_sortedSet {l : List Text} {t : Text} : t ∈ sortedSet l ↔ t ∈ l := by
  rw [sortedSet, List.mem_insertionSort, List.mem_dedup]

theorem sortedSet_eq_nil {l : List Text} : sortedSet l = [] ↔ l = [] := by
  simp only [List.eq_nil_iff_forall_not_mem, mem_sortedSet]

end Text
